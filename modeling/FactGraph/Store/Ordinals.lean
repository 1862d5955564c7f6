import FactGraph.Store.Stored

/-!
# The ordinals of a transaction

The operations of a commit are its claims, its revocations and its appended metadata, in this order, and
each gets its place in that list as its ordinal. `Batch.InOrder` says what this means for the tables
and for the indexes: everything written at the sequence number of the transaction is written at the
ordinal of the operation it belongs to. `Batch.inOrder_of_ok` says that it holds after every commit
that returns, if its sequence number is a new one.
-/

namespace FactGraph.Store

open Protocol Check Session Indexes

namespace Batch

/-- The ids of the claims and revocations of a batch. -/
def newIds (b : Batch) : List String := b.newClaimIds ++ b.newRevokerIds

/-- The ids its operations are about, in the order of the operations. -/
def operations (b : Batch) : List String := b.newIds ++ b.metaAppends.map (·.asrtId)

/-- The transaction `n` of the ledger is this batch, every operation at its ordinal. -/
structure InOrder (b : Batch) (l : Ledger) (n : Nat) : Prop where
  distinct : b.newIds.Nodup
  claimRows : (l.tables.claims.rows.filter fun r => r.txRef = n).map (·.asrtId) = b.newIds
  known : ∀ a, Dict.get? l.indexes.claimTxRefs a = some n ↔ a ∈ b.newIds
  positions : ∀ (i : Nat) (a : String), b.newIds[i]? = some a →
    Dict.get? l.indexes.claimOpOrdinals a = some i
  metaRows : ∀ r ∈ l.tables.claimMeta.rows, r.txSeq = n → b.operations[r.opOrdinal]? = some r.asrtId
  metaStored : ∀ w ∈ b.metaWrites, ∃ r ∈ l.tables.claimMeta.rows, r.Stores n w

/-! ## The checks -/

theorem mergedAssertions_ids (b : Batch) :
    b.mergedAssertions.map (·.claim.asrtId) = b.newClaimIds := by
  unfold mergedAssertions newClaimIds
  rw [List.map_map]
  rfl

theorem mergedRevocations_ids (b : Batch) :
    b.mergedRevocations.map (·.revokes.revokerAsrtId) = b.newRevokerIds := by
  unfold mergedRevocations newRevokerIds
  rw [List.map_map]
  rfl

/-- What the checks of a commit establish about its ids. -/
theorem check_ids {l : Ledger} {b : Batch} {n : Nat} (h : b.check l = .ok n) :
    b.newIds.Nodup ∧
      (∀ item ∈ b.mergedAssertions, ∀ r ∈ item.annotationRows, r.asrtId = item.claim.asrtId) ∧
      ∀ item ∈ b.mergedRevocations, ∀ r ∈ item.annotationRows,
        r.asrtId = item.revokes.revokerAsrtId := by
  unfold check at h
  obtain ⟨_, h⟩ := bind_unit_ok_iff.mp h
  obtain ⟨_, h⟩ := bind_unit_ok_iff.mp h
  obtain ⟨m, hseq, h⟩ := bind_ok_iff.mp h
  obtain ⟨hassertions, h⟩ := bind_unit_ok_iff.mp h
  obtain ⟨hrevocations, _⟩ := bind_unit_ok_iff.mp h
  obtain ⟨hclaims, hclaimsAll⟩ :=
    all_of_checks (fun h => checkAssertion_ok h) hassertions fun _ _ _ => rfl
  obtain ⟨hrevokers, hrevokersAll⟩ :=
    all_of_checks (fun h => checkRevocation_ok h) hrevocations fun _ _ _ => rfl
  rw [mergedAssertions_ids] at hclaims
  rw [mergedRevocations_ids] at hrevokers
  refine ⟨?_, fun item hitem => (hclaimsAll item hitem).2.2.2,
    fun item hitem => (hrevokersAll item hitem).2.2⟩
  refine List.nodup_append.mpr ⟨hclaims, hrevokers, ?_⟩
  intro x hx y hy hxy
  rw [← mergedRevocations_ids] at hy
  obtain ⟨item, hitem, rfl⟩ := List.mem_map.mp hy
  exact (hrevokersAll item hitem).1 (hxy ▸ hx)

/-! ## The tables -/

/-- The rows of its claims and revocations, in order. -/
theorem claimRows_of_commitBody {l : Ledger} {b : Batch} {n : Nat} (hcheck : b.check l = .ok n)
    {t : Tables} {hook : Hook Indexes StoreErr}
    (h : l.commitBody b n l.tables = .ok (t, hook)) :
    ∃ rows, t.claims.rows = l.tables.claims.rows ++ rows ∧ rows.map (·.asrtId) = b.newIds ∧
      ∀ r ∈ rows, r.txRef = n := by
  obtain ⟨t₁, h₁, h₂, cs, _, hw₁, hw₂, _⟩ := writes_parts hcheck h
  obtain ⟨ms₁, hgrown₁, _⟩ := hw₁.tables
  obtain ⟨ms₂, hgrown₂, hmatch₂⟩ := hw₂.tables
  obtain ⟨rows, hrows, hof⟩ := (hgrown₁.trans hgrown₂).claims
  -- what comes after the claims of the user are the revocations
  have hsystem : ∀ c ∈ cs, c.isUser = false := by
    have hnone := hmatch₂.claims
    have hempty : (b.restDelta l n).claims = [] := by
      show (revocationsDelta l n b.assertions.length b.mergedRevocations).claims ++
        (l.appendsDelta projects n _ b.metaAppends).claims = []
      rw [revocationsDelta_claims, (l.appendsDelta_claims _ _ _ _).1]
      rfl
    rw [hempty, eq_comm, List.filter_eq_nil_iff] at hnone
    intro c hc
    simpa using hnone c hc
  have hrevokers : cs.map (·.asrtId) = b.newRevokerIds := by
    have hids := hmatch₂.revokes
    have hall : (cs.filter fun c => !c.isUser) = cs := by
      apply List.filter_eq_self.mpr
      intro c hc
      simp [hsystem c hc]
    rw [hall, restDelta_revokes, List.map_map] at hids
    exact hids.symm
  refine ⟨rows, hrows, ?_, ?_⟩
  · rw [rows_asrtId hof, List.map_append, hrevokers, List.map_map]
    rfl
  · intro r hr
    obtain ⟨c, _, hrc⟩ := exists_of_forall₂ hof.flip r hr
    exact hrc.txRef

theorem withoutReproducible_asrtId {reproducible : List (AnnotationRow × StoredMeta)} {a : String}
    {annotationRows : List AnnotationRow} {rows : List MetaRow}
    (hc : withoutReproducible reproducible annotationRows = .ok rows)
    (h : ∀ r ∈ annotationRows, r.asrtId = a) : ∀ r ∈ rows, r.asrtId = a := by
  induction annotationRows generalizing rows with
  | nil =>
    cases hc
    simp
  | cons row annotationRows ih =>
    unfold withoutReproducible at hc
    obtain ⟨id, _, hc⟩ := bind_ok_iff.mp hc
    obtain ⟨rest, hrest, hc⟩ := bind_ok_iff.mp hc
    have hih := ih hrest fun r hr => h r (List.mem_cons_of_mem _ hr)
    cases hc
    split
    · exact hih
    · intro r hr
      rcases List.mem_cons.mp hr with rfl | hr
      · exact h row List.mem_cons_self
      · exact hih r hr

theorem compatibilityRows_asrtId {annotationRows : List AnnotationRow} {metaRows : List MetaRow}
    {a : String} (h : ∀ r ∈ annotationRows, r.asrtId = a) :
    ∀ r ∈ compatibilityRows annotationRows metaRows, r.asrtId = a := by
  unfold compatibilityRows
  cases hc : annotationCompatibilityMetaRows annotationRows metaRows with
  | error e => simp
  | ok rows =>
    unfold annotationCompatibilityMetaRows at hc
    obtain ⟨reproducible, _, hc⟩ := bind_ok_iff.mp hc
    exact withoutReproducible_asrtId hc h

theorem besideClaim_asrtId {annotationRows : List AnnotationRow} {metaRows : List MetaRow}
    {a : String} (hmeta : ∀ r ∈ metaRows, r.asrtId = a)
    (hann : ∀ r ∈ annotationRows, r.asrtId = a) :
    ∀ w ∈ besideClaim metaRows annotationRows, w.asrtId = a := by
  intro w hw
  rcases List.mem_append.mp hw with hw | hw
  · obtain ⟨r, hr, rfl⟩ := List.mem_map.mp hw
    exact hmeta r hr
  · obtain ⟨r, hr, rfl⟩ := List.mem_map.mp hw
    exact compatibilityRows_asrtId hann r hr

/-- **Every metadata row is written at the ordinal of its operation.** -/
theorem metaWrites_ordinal {l : Ledger} {b : Batch} {n : Nat} (hcheck : b.check l = .ok n) :
    ∀ w ∈ b.metaWrites, b.operations[w.2]? = some w.1.asrtId := by
  obtain ⟨_, hassertions, hrevocations⟩ := check_ok hcheck
  obtain ⟨_, hannotations, hrannotations⟩ := check_ids hcheck
  have hlength : b.newClaimIds.length = b.assertions.length := by simp [newClaimIds]
  have hrlength : b.newRevokerIds.length = b.revocations.length := by simp [newRevokerIds]
  rintro ⟨w, i⟩ hw
  unfold metaWrites at hw
  rcases List.mem_append.mp hw with hw | hw
  · obtain ⟨⟨item, j⟩, hitem, hw⟩ := List.mem_flatMap.mp hw
    obtain ⟨x, hx, heq⟩ := List.mem_map.mp hw
    cases heq
    have hmem := List.fst_mem_of_mem_zipIdx hitem
    have hat : b.mergedAssertions[j]? = some item := List.mk_mem_zipIdx_iff_getElem?.mp hitem
    have hid : b.newClaimIds[j]? = some item.claim.asrtId := by
      rw [← mergedAssertions_ids, List.getElem?_map, hat]
      rfl
    rw [besideClaim_asrtId (hassertions _ hmem).2 (hannotations _ hmem) _ hx]
    have hlt := (List.getElem?_eq_some_iff.mp hid).1
    show ((b.newClaimIds ++ b.newRevokerIds) ++ _)[j]? = _
    rw [List.append_assoc, List.getElem?_append_left hlt, hid]
  rcases List.mem_append.mp hw with hw | hw
  · obtain ⟨⟨item, j⟩, hitem, hw⟩ := List.mem_flatMap.mp hw
    obtain ⟨x, hx, heq⟩ := List.mem_map.mp hw
    cases heq
    have hmem := List.fst_mem_of_mem_zipIdx hitem
    obtain ⟨hle, hat⟩ := List.mk_mem_zipIdx_iff_le_and_getElem?_sub.mp hitem
    have hid : b.newRevokerIds[j - b.assertions.length]? = some item.revokes.revokerAsrtId := by
      rw [← mergedRevocations_ids, List.getElem?_map, hat]
      rfl
    rw [besideClaim_asrtId (hrevocations _ hmem) (hrannotations _ hmem) _ hx]
    have hlt := (List.getElem?_eq_some_iff.mp hid).1
    show ((b.newClaimIds ++ b.newRevokerIds) ++ _)[j]? = _
    rw [List.append_assoc, List.getElem?_append_right (by omega), hlength,
      List.getElem?_append_left hlt, hid]
  · obtain ⟨hle, hat⟩ := List.mk_mem_zipIdx_iff_le_and_getElem?_sub.mp hw
    have hnew : b.newIds.length = b.assertions.length + b.revocations.length := by
      rw [newIds, List.length_append, hlength, hrlength]
    show (b.newIds ++ _)[i]? = _
    rw [List.getElem?_append_right (by omega), hnew, List.getElem?_map, hat]
    rfl

/-! ## The indexes -/

/-- The id is at this position. -/
def At (n : Nat) (a : String) (i : Nat) (m : Indexes) : Prop :=
  Dict.get? m.claimTxRefs a = some n ∧ Dict.get? m.claimOpOrdinals a = some i

/-- Placing other ids leaves it there. -/
theorem stable_at (isLazy : String → Bool) (n : Nat) (a : String) (i : Nat) :
    Stable isLazy n (fun x => a ≠ x) (At n a i) where
  addClaim _ _ hm := hm
  addClaimArg _ _ hm := hm
  addSystemClaim _ _ hm := hm
  setTxRef m x hx hm := ⟨by rw [setTxRef, Dict.get?_set_of_ne hx]; exact hm.1, hm.2⟩
  setOpOrdinal m x op hx hm := ⟨hm.1, by rw [setOpOrdinal, Dict.get?_set_of_ne hx]; exact hm.2⟩
  addMetaEvent _ _ _ _ hm := hm
  addMetaRow _ _ _ hm := hm
  addAnnotationRow m row _ hm := by
    unfold addAnnotationRow
    cases Dict.get? m.annoByIdentity row.slot <;> exact hm
  idxAddRevoke _ _ hm := hm

theorem ensures_assertionHook (l : Ledger) {claim : Claim}
    (hu : startsWith systemPrefix claim.predId = false) (metaRows : List MetaRow)
    (annotationRows : List AnnotationRow) (n op : Nat) :
    Hook.Ensures (At n claim.asrtId op) (l.assertionHook claim metaRows annotationRows n op) := by
  have hstable := stable_at l.isLazy n claim.asrtId op
  unfold Ledger.assertionHook
  refine Hook.Ensures.andThen (Hook.ensures_step ?_) ?_
  · intro m
    exact ⟨Dict.get?_set_self _ _ _, Dict.get?_set_self _ _ _⟩
  · exact (hstable.idxAddClaim_of_user hu).andThen (Ledger.keeps_claimMetaHook hstable _ _ _)

theorem ensures_revocationHook (l : Ledger) (b : Batch) (n op : Nat)
    (item : LedgerRevocationWrite) :
    Hook.Ensures (At n item.revokes.revokerAsrtId op) (revocationHook l b n op item) := by
  have hstable := stable_at l.isLazy n item.revokes.revokerAsrtId op
  intro m hok
  unfold revocationHook at hok ⊢
  cases htarget : b.target? (Dict.get? m.claimByAsrtId ·) item.revokes.revokedAsrtId with
  | none =>
    rw [htarget] at hok
    cases hok
  | some target =>
    rw [htarget] at hok
    have hplaced : Hook.Ensures (E := StoreErr) (At n item.revokes.revokerAsrtId op)
        ((idxAddSystemRevocationClaim (revokeClaim item.revokes target) (some n)).andThen
          ((Hook.step fun m => (m.setOpOrdinal item.revokes.revokerAsrtId op).idxAddRevoke
            item.revokes).andThen (l.claimMetaHook item.metaRows item.annotationRows n op))) := by
      intro m hm
      have hkeep := Ledger.keeps_claimMetaHook hstable item.metaRows item.annotationRows op
      exact hkeep _ ⟨Dict.get?_set_self _ _ _, Dict.get?_set_self _ _ _⟩
    exact hplaced m hok

theorem map_fst_zipIdx {A B : Type} (f : A → B) (as : List A) (k : Nat) :
    ((as.zipIdx k).map fun p => f p.1) = as.map f := by
  show (as.zipIdx k).map (f ∘ Prod.fst) = as.map f
  rw [← List.map_map, List.zipIdx_map_fst]

/-- In a list without repetitions the entries after one entry are others. -/
theorem ne_of_split {A : Type} {f : A → String} {as before after : List A} {a : A}
    (hnodup : (as.map f).Nodup) (hsplit : as = before ++ a :: after) :
    ∀ x ∈ after, f a ≠ f x := by
  rw [hsplit, List.map_append, List.map_cons] at hnodup
  have hrest := (List.nodup_append.mp hnodup).2.1
  rw [List.nodup_cons] at hrest
  intro x hx heq
  exact hrest.1 (heq ▸ List.mem_map_of_mem hx)

/-- **A commit whose hook returns has placed all its ids**, each at its ordinal. -/
theorem at_of_hook {l : Ledger} {b : Batch} {n : Nat} (hcheck : b.check l = .ok n) {i : Nat}
    {a : String} (hi : b.newIds[i]? = some a) : Hook.Ensures (At n a i) (b.hook l n) := by
  obtain ⟨_, hassertions, _⟩ := check_ok hcheck
  obtain ⟨hnodup, _, _⟩ := check_ids hcheck
  obtain ⟨hclaims, hrevokers, hdisjoint⟩ := List.nodup_append.mp hnodup
  have hstable := stable_at l.isLazy n a i
  have hlength : b.newClaimIds.length = b.assertions.length := by simp [newClaimIds]
  have happends : Hook.Preserves (At n a i) (Hook.each (fun p => appendHook l n p.2 p.1)
      (b.metaAppends.zipIdx (b.assertions.length + b.revocations.length))) :=
    Hook.preserves_each fun p _ => keeps_appendHook hstable p.2 p.1
  unfold Batch.hook
  unfold newIds at hi
  -- the ordinal is that of an assertion or, behind them, of a revocation; the hooks of the other
  -- assertions and revocations leave the place alone
  rcases Nat.lt_or_ge i b.newClaimIds.length with hlt | hge
  · rw [List.getElem?_append_left hlt, ← mergedAssertions_ids, List.getElem?_map,
      Option.map_eq_some_iff] at hi
    obtain ⟨item, hitem, rfl⟩ := hi
    have hmem := List.mem_of_getElem? hitem
    obtain ⟨before, after, hsplit⟩ :=
      List.append_of_mem (List.mk_mem_zipIdx_iff_getElem?.mpr hitem)
    have hids : (b.mergedAssertions.zipIdx.map fun p => p.1.claim.asrtId).Nodup := by
      have hmap := map_fst_zipIdx (fun item : LedgerAssertionWrite => item.claim.asrtId)
        b.mergedAssertions 0
      rw [mergedAssertions_ids] at hmap
      exact (congrArg List.Nodup hmap).mpr hclaims
    refine Hook.Ensures.andThen ?_ (Hook.Preserves.andThen ?_ happends)
    · rw [hsplit]
      refine Hook.ensures_each (a := (item, i))
        (ensures_assertionHook l (hassertions _ hmem).1 _ _ n i) ?_
      intro p hp
      exact Ledger.keeps_assertionHook hstable (ne_of_split hids hsplit p hp) _ _ _
    · apply Hook.preserves_each
      intro p hp
      refine keeps_revocationHook hstable b p.2 ?_
      refine hdisjoint _ ?_ _ ?_
      · rw [← mergedAssertions_ids]
        exact List.mem_map_of_mem hmem
      · rw [← mergedRevocations_ids]
        exact List.mem_map_of_mem (List.fst_mem_of_mem_zipIdx hp)
  · rw [List.getElem?_append_right hge, ← mergedRevocations_ids, List.getElem?_map,
      Option.map_eq_some_iff] at hi
    obtain ⟨item, hitem, rfl⟩ := hi
    have hi' : (item, i) ∈ b.mergedRevocations.zipIdx b.assertions.length := by
      rw [List.mk_mem_zipIdx_iff_le_and_getElem?_sub]
      exact ⟨hlength ▸ hge, hlength ▸ hitem⟩
    obtain ⟨before, after, hsplit⟩ := List.append_of_mem hi'
    have hids : ((b.mergedRevocations.zipIdx b.assertions.length).map
        fun p => p.1.revokes.revokerAsrtId).Nodup := by
      have hmap := map_fst_zipIdx
        (fun item : LedgerRevocationWrite => item.revokes.revokerAsrtId)
        b.mergedRevocations b.assertions.length
      rw [mergedRevocations_ids] at hmap
      exact (congrArg List.Nodup hmap).mpr hrevokers
    refine Hook.Ensures.afterwards _ (Hook.Ensures.andThen ?_ happends)
    rw [hsplit]
    refine Hook.ensures_each (a := (item, i)) (ensures_revocationHook l b n i item) ?_
    intro p hp
    exact keeps_revocationHook hstable b p.2 (ne_of_split hids hsplit p hp)

end Batch

/-! ## The transaction as a whole -/

/-- The sequence number is in use. -/
def Ledger.Uses (l : Ledger) (n : Nat) : Prop :=
  (∃ r ∈ l.tables.claims.rows, r.txRef = n) ∨ (∃ r ∈ l.tables.claimMeta.rows, r.txSeq = n) ∨
    ∃ a, Dict.get? l.indexes.claimTxRefs a = some n

/-- **A commit that returns stands in order**, if its sequence number is new. -/
theorem Batch.inOrder_of_ok {l l' : Ledger} {b : Batch} {n : Nat} (hseq : b.txSeq = .ok n)
    (hnew : ¬l.Uses n) (h : l.commitBatch b = (l', .ok ())) : b.InOrder l' n := by
  have hcommits : l.Commits b := by
    by_contra hnot
    obtain ⟨e, he⟩ := Ledger.commitBatch_of_refused hnot
    rw [he] at h
    cases h
  obtain ⟨m, t, hook, hcheck, hbody⟩ := hcommits
  obtain rfl : m = n := by
    have hm := (check_ok hcheck).1
    rw [hseq] at hm
    exact (Except.ok.inj hm).symm
  rw [Ledger.commitBatch_of_commits hcheck hbody] at h
  simp only [Prod.mk.injEq] at h
  obtain ⟨rfl, hok⟩ := h
  have hhook : hook = b.hook l m := by
    unfold Ledger.commitBody at hbody
    obtain ⟨_, _, hbody⟩ := bind_ok_iff.mp hbody
    cases hbody
    rfl
  obtain ⟨rows, hrows, hids, htx⟩ := claimRows_of_commitBody hcheck hbody
  obtain ⟨ms, hms, hstored⟩ := metaRows_of_commitBody hcheck hbody
  have hat : ∀ (i : Nat) (a : String), b.newIds[i]? = some a → At m a i (hook l.indexes).1 := by
    intro i a hi
    rw [hhook] at hok ⊢
    exact at_of_hook hcheck hi l.indexes hok
  refine ⟨(check_ids hcheck).1, ?_, ?_, fun i a hi => (hat i a hi).2, ?_, ?_⟩
  · show (t.claims.rows.filter _).map _ = _
    -- no older row is of this transaction
    have hold : l.tables.claims.rows.filter (fun r => r.txRef = m) = [] := by
      apply List.filter_eq_nil_iff.mpr
      intro r hr hrm
      exact hnew (.inl ⟨r, hr, by simpa using hrm⟩)
    have hall : rows.filter (fun r => r.txRef = m) = rows := by
      apply List.filter_eq_self.mpr
      intro r hr
      simp [htx r hr]
    rw [hrows, List.filter_append, hold, hall, List.nil_append, hids]
  · intro a
    constructor
    · intro ha
      obtain ⟨cs, hw⟩ := writes_commitBody hcheck hbody
      obtain ⟨_, hgrown, _⟩ := hw.tables
      obtain ⟨rows', hrows', hof⟩ := hgrown.claims
      -- an assertion the batch does not name keeps its transaction, and `n` was not in use
      have hplaced := hw.keeps _ _ (stable_placed l.isLazy m _ l.indexes)
        (fun c hc => List.mem_map_of_mem hc) _ (Placed.refl m _ l.indexes)
      rcases hplaced.txRefs a with hsame | ⟨hmem, _⟩
      · exact absurd (.inr (.inr ⟨a, hsame ▸ ha⟩)) hnew
      · have hrows'' : rows' = rows := List.append_cancel_left (hrows'.symm.trans hrows)
        rwa [← rows_asrtId hof, hrows'', hids] at hmem
    · intro ha
      obtain ⟨i, hi⟩ := List.mem_iff_getElem?.mp ha
      exact (hat i a hi).1
  · intro r hr hrm
    rw [hms] at hr
    rcases List.mem_append.mp hr with hr | hr
    · exact absurd (.inr (.inl ⟨r, hr, hrm⟩)) hnew
    · obtain ⟨w, hw, hrw⟩ := exists_of_forall₂ hstored.flip r hr
      obtain ⟨hkey, _, _, hid⟩ := Tables.encodeAppend_key hrw
      have hop : r.opOrdinal = w.2 := congrArg (fun k => k.2.2.2) hkey
      rw [hop, hid]
      exact metaWrites_ordinal hcheck w hw
  · intro w hw
    obtain ⟨r, hr, hrw⟩ := exists_of_forall₂ hstored w hw
    exact ⟨r, by rw [hms]; exact List.mem_append_right _ hr, hrw⟩

end FactGraph.Store
