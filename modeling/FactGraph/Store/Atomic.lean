import FactGraph.Store.Outcomes
import FactGraph.Store.Stored

/-!
# When a commit is atomic

`commit_batch` runs its statements in one transaction and brings the indexes up to date after `COMMIT`.
Two things are parsed only there: the terms of a claim with several of them, and the storage keys of
annotations among the appended metadata. `Batch.Indexable` says that they parse. If they do, the
hook of the commit returns; if not, it raises once the tables have changed, and
`Ledger.commitBatch_atomic_iff` is the result: a commit leaves the ledger alone when it raises,
exactly if it is refused or indexable.
-/

namespace FactGraph.Store

open Protocol Check Session Indexes

/-! ## The hook of a commit -/

/-- What the hook of a commit parses can be parsed. -/
structure Batch.Indexable (b : Batch) : Prop where
  terms : ∀ item ∈ b.assertions, ∃ rows, claimArgsFromRestTerms item.claim.restTerms = .ok rows
  annotations : ∀ row id, .row row ∈ b.metaAppends → row.key = .storage id →
    ∃ annotation, annotationFromStorageKey row.asrtId row.key row.kind row.value = .ok annotation

namespace Batch

/-- The targets of the revocations are known to the indexes, or claims of the batch. -/
def Targets (b : Batch) (m : Indexes) : Prop :=
  ∀ item ∈ b.revocations,
    (b.target? (Dict.get? m.claimByAsrtId ·) item.revokes.revokedAsrtId).isSome

theorem stable_targets (isLazy : String → Bool) (n : Nat) (ids : String → Prop) (b : Batch) :
    Stable isLazy n ids b.Targets where
  addClaim m c hm := by
    intro item hitem
    have hknown := hm item hitem
    unfold target? at hknown ⊢
    simp only [addClaim, Dict.get?_set]
    by_cases hid : item.revokes.revokedAsrtId = c.asrtId
    · simp [hid]
    · simpa [hid] using hknown
  addClaimArg _ _ hm := hm
  addSystemClaim _ _ hm := hm
  setTxRef _ _ _ hm := hm
  setOpOrdinal _ _ _ _ hm := hm
  addMetaEvent _ _ _ _ hm := hm
  addMetaRow _ _ _ hm := hm
  addAnnotationRow m row _ hm := by
    unfold addAnnotationRow
    cases Dict.get? m.annoByIdentity row.slot <;> exact hm
  idxAddRevoke _ _ hm := hm

/-- The annotations of every claim that was inserted have compatibility rows. -/
theorem annotated_of_insertAssertions {n : Nat} {items : List LedgerAssertionWrite} :
    ∀ {op : Nat} {t t' : Tables}, insertAssertions n op t items = .ok t' →
      ∀ item ∈ items, Ledger.Annotated item.annotationRows item.metaRows := by
  induction items with
  | nil => simp
  | cons item items ih =>
    intro op t t' h x hx
    unfold insertAssertions at h
    obtain ⟨t₁, ht₁, h⟩ := bind_ok_iff.mp h
    rcases List.mem_cons.mp hx with rfl | hx
    · exact Ledger.annotated_of_insertAssertion ht₁
    · exact ih h x hx

theorem annotated_of_insertRevocations {l : Ledger} {b : Batch} {n : Nat}
    {items : List LedgerRevocationWrite} :
    ∀ {op : Nat} {t t' : Tables}, insertRevocations b l n op t items = .ok t' →
      ∀ item ∈ items, Ledger.Annotated item.annotationRows item.metaRows := by
  induction items with
  | nil => simp
  | cons item items ih =>
    intro op t t' h x hx
    unfold insertRevocations at h
    cases htarget : b.target? l.getClaim item.revokes.revokedAsrtId with
    | none => simp [htarget] at h
    | some target =>
      simp only [htarget] at h
      obtain ⟨t₁, ht₁, h⟩ := bind_ok_iff.mp h
      rcases List.mem_cons.mp hx with rfl | hx
      · exact Ledger.annotated_of_insertAssertion ht₁
      · exact ih h x hx

theorem returns_revocationHook (l : Ledger) {b : Batch} (n op : Nat) {item : LedgerRevocationWrite}
    (hitem : ∃ source ∈ b.revocations, source.revokes = item.revokes)
    (hann : Ledger.Annotated item.annotationRows item.metaRows) :
    Hook.Returns b.Targets (revocationHook l b n op item) := by
  intro m hm
  obtain ⟨source, hsource, hrevokes⟩ := hitem
  have htarget := hm source hsource
  rw [hrevokes] at htarget
  unfold revocationHook
  obtain ⟨target, htarget⟩ := Option.isSome_iff_exists.mp htarget
  rw [htarget]
  obtain ⟨f, hf⟩ := l.total_claimMetaHook hann n op
  have hclaim : Hook.Total (idxAddSystemRevocationClaim (revokeClaim item.revokes target) (some n))
      fun m => (m.addSystemClaim (revokeClaim item.revokes target)).setTxRef
        (revokeClaim item.revokes target).asrtId n := fun m => rfl
  have htotal := hclaim.andThen ((Hook.total_step fun m : Indexes =>
    (m.setOpOrdinal item.revokes.revokerAsrtId op).idxAddRevoke item.revokes).andThen hf)
  simp only [htotal m]

theorem returns_appendHook (l : Ledger) {b : Batch} (hb : b.Indexable) (n op : Nat)
    {a : MetaAppend} (ha : a ∈ b.metaAppends) (P : Indexes → Prop) :
    Hook.Returns P (appendHook l n op a) := by
  unfold appendHook
  cases a with
  | unset u => exact Hook.returns_step _
  | row row =>
    obtain ⟨asrtId, key, kind, value⟩ := row
    cases key with
    | plain text => exact Hook.returns_step _
    | storage id =>
      obtain ⟨note, hrow⟩ := hb.annotations _ id ha rfl
      exact ((Hook.total_step _).andThen (Hook.total_bind hrow (Hook.total_step _))).returns

/-- **The hook of an indexable commit returns.** -/
theorem returns_hook {l : Ledger} {b : Batch} {n : Nat} (hcheck : b.check l = .ok n) {t : Tables}
    {hook : Hook Indexes StoreErr} (h : l.commitBody b n l.tables = .ok (t, hook))
    (hb : b.Indexable) : (hook l.indexes).2 = .ok () := by
  obtain ⟨_, hassertions, _⟩ := check_ok hcheck
  obtain ⟨_, _, _, _, _, _, _, htargets⟩ := writes_parts hcheck h
  unfold Ledger.commitBody at h
  obtain ⟨t', hbody, h⟩ := bind_ok_iff.mp h
  cases h
  unfold body at hbody
  obtain ⟨_, hbody⟩ := bind_unit_ok_iff.mp hbody
  obtain ⟨t₀, _, hbody⟩ := bind_ok_iff.mp hbody
  obtain ⟨t₁, ht₁, hbody⟩ := bind_ok_iff.mp hbody
  obtain ⟨t₂, ht₂, hbody⟩ := bind_ok_iff.mp hbody
  have hstable := stable_targets l.isLazy n (fun _ => True) b
  suffices hreturns : Hook.Returns b.Targets (b.hook l n) from hreturns l.indexes htargets
  unfold Batch.hook
  refine Hook.Returns.andThen (Hook.returns_each ?_) (Hook.preserves_each ?_)
    (Hook.Returns.andThen (Hook.returns_each ?_) (Hook.preserves_each ?_)
      (Hook.returns_each ?_))
  · intro p hp
    have hitem : p.1 ∈ b.mergedAssertions := List.fst_mem_of_mem_zipIdx hp
    obtain ⟨rows, hrows⟩ : ∃ rows, claimArgsFromRestTerms p.1.claim.restTerms = .ok rows := by
      obtain ⟨source, hsource, hp⟩ := List.mem_map.mp hitem
      rw [← hp]
      exact hb.terms source hsource
    obtain ⟨f, hf⟩ := l.total_assertionHook (hassertions _ hitem).1 hrows
      (annotated_of_insertAssertions ht₁ _ hitem) n p.2
    exact ⟨hf.returns, Ledger.keeps_assertionHook hstable trivial _ _ _⟩
  · intro p _
    exact Ledger.keeps_assertionHook hstable trivial _ _ _
  · intro p hp
    have hitem : p.1 ∈ b.mergedRevocations := List.fst_mem_of_mem_zipIdx hp
    have hann := annotated_of_insertRevocations ht₂ _ hitem
    obtain ⟨source, hsource, hp'⟩ := List.mem_map.mp hitem
    exact ⟨returns_revocationHook l n p.2 ⟨source, hsource, by rw [← hp']⟩ hann,
      keeps_revocationHook hstable b p.2 trivial⟩
  · intro p _
    exact keeps_revocationHook hstable b p.2 trivial
  · intro p hp
    exact ⟨returns_appendHook l hb n p.2 (List.fst_mem_of_mem_zipIdx hp) _,
      keeps_appendHook hstable p.2 p.1⟩

/-- **The hook of a commit that is not indexable raises.** -/
theorem raises_hook {l : Ledger} {b : Batch} {n : Nat} (hcheck : b.check l = .ok n)
    (hb : ¬b.Indexable) : Hook.Raises (b.hook l n) := by
  obtain ⟨_, hassertions, _⟩ := check_ok hcheck
  have hcases : (∃ item ∈ b.assertions, ∃ e, claimArgsFromRestTerms item.claim.restTerms = .error e) ∨
      ∃ row id, .row row ∈ b.metaAppends ∧ row.key = .storage id ∧
        ∃ e, annotationFromStorageKey row.asrtId row.key row.kind row.value = .error e := by
    by_contra hnone
    apply hb
    constructor
    · intro item hitem
      cases hterms : claimArgsFromRestTerms item.claim.restTerms with
      | ok rows => exact ⟨rows, rfl⟩
      | error e => exact absurd (.inl ⟨item, hitem, e, hterms⟩) hnone
    · intro row id hrow hkey
      cases hnote : annotationFromStorageKey row.asrtId row.key row.kind row.value with
      | ok note => exact ⟨note, rfl⟩
      | error e => exact absurd (.inr ⟨row, id, hrow, hkey, e, hnote⟩) hnone
  unfold Batch.hook
  rcases hcases with ⟨item, hitem, e, hterms⟩ | ⟨row, id, hrow, hkey, e, hnote⟩
  · obtain ⟨merged, hmerged, hclaim⟩ : ∃ merged ∈ b.mergedAssertions, merged.claim = item.claim :=
      ⟨_, List.mem_map_of_mem hitem, rfl⟩
    rw [← hclaim] at hterms
    obtain ⟨i, hi⟩ := List.mem_iff_getElem?.mp hmerged
    have hi := List.mk_mem_zipIdx_iff_getElem?.mpr hi
    apply Hook.Raises.andThen
    refine Hook.raises_each ?_ hi
    refine Hook.Raises.afterwards _ (Hook.Raises.andThen ?_ _)
    intro m
    exact ⟨e, by rw [idxAddClaim_of_error (hassertions _ hmerged).1 hterms]⟩
  · obtain ⟨i, hi⟩ := List.mem_iff_getElem?.mp hrow
    have hi := (List.mk_add_mem_zipIdx_iff_getElem?
      (k := b.assertions.length + b.revocations.length)).mpr hi
    refine Hook.Raises.afterwards _ (Hook.Raises.afterwards _ (Hook.raises_each ?_ hi))
    obtain ⟨asrtId, key, kind, value⟩ := row
    simp only at hkey
    subst hkey
    refine Hook.Raises.afterwards _ ?_
    intro m
    exact ⟨e, by simp only [Hook.bind, hnote]⟩

/-- A commit that changes no table has nothing to index. -/
theorem indexable_of_unchanged {l : Ledger} {b : Batch} {n : Nat} (hcheck : b.check l = .ok n)
    {t : Tables} {hook : Hook Indexes StoreErr}
    (h : l.commitBody b n l.tables = .ok (t, hook)) (hsame : t = l.tables) : b.Indexable := by
  obtain ⟨cs, hw⟩ := writes_commitBody hcheck h
  obtain ⟨_, hgrown, _⟩ := hw.tables
  obtain ⟨rows, hrows, hof⟩ := hgrown.claims
  obtain ⟨ms, hms, hstored⟩ := metaRows_of_commitBody hcheck h
  rw [hsame] at hrows hms
  obtain rfl : rows = [] := by simpa using hrows
  obtain rfl : ms = [] := by simpa using hms
  have hassertions : b.assertions = [] := by
    have hclaims : b.assertions.map (·.claim) ++ cs = [] := List.forall₂_nil_left_iff.mp hof
    simpa using (List.append_eq_nil_iff.mp hclaims).1
  have happends : b.metaAppends = [] := by
    have hwrites : b.metaWrites = [] := List.forall₂_nil_left_iff.mp hstored
    have hrest := (List.append_eq_nil_iff.mp hwrites).2
    simpa [List.zipIdx_eq_nil_iff] using (List.append_eq_nil_iff.mp hrest).2
  constructor
  · simp [hassertions]
  · simp [happends]

end Batch

/-- **A commit is atomic exactly if it is refused or indexable.** -/
theorem Ledger.commitBatch_atomic_iff (l : Ledger) (b : Batch) :
    (∀ e, (l.commitBatch b).2 = .error e → (l.commitBatch b).1 = l) ↔
      (l.Commits b → b.Indexable) := by
  by_cases hcommits : l.Commits b
  · obtain ⟨n, t, hook, hcheck, hbody⟩ := hcommits
    have hwritten : l.Commits b := ⟨n, t, hook, hcheck, hbody⟩
    rw [commitBatch_of_commits hcheck hbody]
    simp only [hwritten, true_imp_iff]
    constructor
    · intro hatomic
      by_contra hb
      have hhook : hook = b.hook l n := by
        unfold Ledger.commitBody at hbody
        obtain ⟨_, _, hbody⟩ := bind_ok_iff.mp hbody
        cases hbody
        rfl
      obtain ⟨e, he⟩ := Batch.raises_hook hcheck hb l.indexes
      have hsame := hatomic e (hhook ▸ he)
      exact hb (Batch.indexable_of_unchanged hcheck hbody (congrArg Ledger.tables hsame))
    · intro hb e he
      rw [Batch.returns_hook hcheck hbody hb] at he
      cases he
  · obtain ⟨e, he⟩ := commitBatch_of_refused hcommits
    simp [he, hcommits]

end FactGraph.Store
