import FactGraph.Protocol.Canonical
import FactGraph.Store.Replay

/-!
# What a direct write returns

`append_assertion` and `append_revocation` parse what they are given before they open their session, so
their hooks cannot raise: a call refuses and leaves the ledger alone, answers with the id that has
the ingest key, or writes. `AssertionOutcome` and `RevocationOutcome` are these three cases, and the
last section says when a write of a fresh id goes through.
-/

namespace FactGraph.Store

open Protocol Check Session Indexes

namespace Ledger

/-! ## Hooks that do not raise -/

/-- The compatibility rows of the annotations can be computed, where there is one to compute. -/
def Annotated (annotationRows : List AnnotationRow) (metaRows : List MetaRow) : Prop :=
  annotationRows = [] ∨ ∃ rows, annotationCompatibilityMetaRows annotationRows metaRows = .ok rows

theorem annotated_of_insertAssertion {t t' : Tables} {claim : Claim} {metaRows : List MetaRow}
    {annotationRows : List AnnotationRow} {n op : Nat}
    (h : insertAssertion t claim metaRows annotationRows n op = .ok t') :
    Annotated annotationRows metaRows := by
  unfold insertAssertion at h
  obtain ⟨_, _, h⟩ := bind_ok_iff.mp h
  obtain ⟨_, _, h⟩ := bind_ok_iff.mp h
  by_cases hempty : annotationRows.isEmpty = true
  · exact .inl (List.isEmpty_iff.mp hempty)
  · rw [if_neg hempty] at h
    unfold Tables.insertAnnotationRows at h
    obtain ⟨rows, hrows, _⟩ := bind_ok_iff.mp h
    exact .inr ⟨rows, hrows⟩

theorem total_claimMetaHook (l : Ledger) {metaRows : List MetaRow}
    {annotationRows : List AnnotationRow} (h : Annotated annotationRows metaRows) (n op : Nat) :
    ∃ f, Hook.Total (l.claimMetaHook metaRows annotationRows n op) f := by
  unfold claimMetaHook
  rcases h with rfl | ⟨rows, hrows⟩
  · exact ⟨_, (Hook.total_step _).andThen (Hook.total_step id)⟩
  · by_cases hempty : annotationRows.isEmpty = true
    · rw [if_pos hempty]
      exact ⟨_, (Hook.total_step _).andThen (Hook.total_step id)⟩
    · rw [if_neg hempty]
      exact ⟨_, (Hook.total_step _).andThen (Hook.total_bind hrows (Hook.total_step _))⟩

theorem total_assertionHook (l : Ledger) {claim : Claim} {rows : List ArgRow}
    (huser : startsWith systemPrefix claim.predId = false)
    (hargs : claimArgsFromRestTerms claim.restTerms = .ok rows) {metaRows : List MetaRow}
    {annotationRows : List AnnotationRow} (h : Annotated annotationRows metaRows) (n op : Nat) :
    ∃ f, Hook.Total (l.assertionHook claim metaRows annotationRows n op) f := by
  obtain ⟨f, hf⟩ := l.total_claimMetaHook h n op
  have hclaim : Hook.Total (idxAddClaim claim)
      fun m => (m.addClaim claim).addClaimArgs claim.asrtId rows := fun m =>
    idxAddClaim_of_ok huser hargs m
  exact ⟨_, (Hook.total_step _).andThen (hclaim.andThen hf)⟩

/-- A session whose hook does not raise leaves the ledger alone when it raises. -/
theorem session_refused {l l' : Ledger} {e : StoreErr}
    {body : Tables → Except StoreErr (Tables × Hook Indexes StoreErr)}
    (hb : ∀ t hook, body l.tables = .ok (t, hook) → ∃ f, Hook.Total hook f)
    (h : l.session body = (l', .error e)) : l' = l := by
  unfold session at h
  simp only [Prod.mk.injEq] at h
  obtain ⟨rfl, he⟩ := h
  have hsame : (Session.run body (l.tables, l.indexes)).1 = (l.tables, l.indexes) := by
    refine Session.run_error_unchanged_iff.mpr ?_ e he
    intro t hook hbody
    obtain ⟨f, hf⟩ := hb t hook hbody
    exact .inl (by rw [hf])
  rw [hsame]

/-! ## Outcomes -/

/-- What `append_assertion` does. -/
inductive AssertionOutcome (l : Ledger) (a : AssertionArgs) :
    Ledger × Except StoreErr AppendResult → Prop
  | refused (e : StoreErr) : AssertionOutcome l a (l, .error e)
  | answered {existing : String} (h : l.idempotentAnswer a.idempotency = .ok (some existing)) :
      AssertionOutcome l a (l, .ok ⟨existing, false⟩)
  | written {l' : Ledger} {rows : List MetaRow} {w : AssertionWrite}
      (hcheck : checkAssertion a = .ok rows)
      (hfree : l.idempotentAnswer a.idempotency = .ok none)
      (hbuild : buildAssertion a rows = .ok w) (h : l.session (l.assertionBody w) = (l', .ok ())) :
      AssertionOutcome l a (l', .ok ⟨w.claim.asrtId, true⟩)

theorem total_assertionBody {l : Ledger} {a : AssertionArgs} {rows : List MetaRow}
    {w : AssertionWrite} (hcheck : checkAssertion a = .ok rows)
    (hbuild : buildAssertion a rows = .ok w) {t : Tables} {hook : Hook Indexes StoreErr}
    (h : l.assertionBody w l.tables = .ok (t, hook)) : ∃ f, Hook.Total hook f := by
  have hclaim := (buildAssertion_eq hbuild).1
  have huser : startsWith systemPrefix w.claim.predId = false := by
    rw [hclaim]
    exact checkAssertion_user hcheck
  obtain ⟨args, hargs⟩ : ∃ args, claimArgsFromRestTerms w.claim.restTerms = .ok args := by
    unfold buildAssertion at hbuild
    obtain ⟨_, hbuild⟩ := bind_unit_ok_iff.mp hbuild
    obtain ⟨args, hargs, _⟩ := bind_ok_iff.mp hbuild
    rw [hclaim]
    exact ⟨args, hargs⟩
  unfold assertionBody at h
  obtain ⟨t', ht', h⟩ := bind_ok_iff.mp h
  cases h
  exact l.total_assertionHook huser hargs (annotated_of_insertAssertion ht') _ _

theorem appendAssertion_outcome (l : Ledger) (a : AssertionArgs) :
    l.AssertionOutcome a (l.appendAssertion a) := by
  unfold appendAssertion
  cases hcheck : checkAssertion a with
  | error e => exact .refused e
  | ok rows =>
    simp only
    rcases hanswer : l.idempotentAnswer a.idempotency with e | _ | existing
    · exact .refused e
    · cases hbuild : buildAssertion a rows with
      | error e => exact .refused e
      | ok w =>
        simp only
        rcases hs : l.session (l.assertionBody w) with ⟨l', e | u⟩
        · obtain rfl := session_refused (fun t hook h => total_assertionBody hcheck hbuild h) hs
          exact .refused e
        · exact .written hcheck hanswer hbuild hs
    · exact .answered hanswer

/-- What `append_revocation` does. -/
inductive RevocationOutcome (l : Ledger) (a : RevocationArgs) :
    Ledger × Except StoreErr AppendResult → Prop
  | refused (e : StoreErr) : RevocationOutcome l a (l, .error e)
  | answered {existing : String} (h : l.idempotentAnswer a.idempotency = .ok (some existing)) :
      RevocationOutcome l a (l, .ok ⟨existing, false⟩)
  | written {l' : Ledger} {rows : List MetaRow} {id : String} (hcheck : checkRevocation a = .ok rows)
      (hid : id = effectiveId a.revokerAsrtId a.revokes.revokerAsrtId a.newId)
      (h : l.session (l.revocationBody ⟨id, a.revokes.revokedAsrtId⟩ rows
        (initialMetaAnnotationRows rows)) = (l', .ok ())) :
      RevocationOutcome l a (l', .ok ⟨id, true⟩)

theorem total_revocationBody {l : Ledger} {revokes : Revokes} {metaRows : List MetaRow}
    {annotationRows : List AnnotationRow} {t : Tables} {hook : Hook Indexes StoreErr}
    (h : l.revocationBody revokes metaRows annotationRows l.tables = .ok (t, hook)) :
    ∃ f, Hook.Total hook f := by
  unfold revocationBody at h
  cases htarget : l.getClaim revokes.revokedAsrtId with
  | none => simp [htarget] at h
  | some target =>
    simp only [htarget] at h
    obtain ⟨t', _, h⟩ := bind_ok_iff.mp h
    cases h
    have hclaim : Hook.Total (idxAddSystemRevocationClaim (revokeClaim revokes target)
        (some l.tables.nextDirectTxSeq)) fun m =>
          (m.addSystemClaim (revokeClaim revokes target)).setTxRef
            (revokeClaim revokes target).asrtId l.tables.nextDirectTxSeq := fun m => rfl
    exact ⟨_, hclaim.andThen (Hook.total_step _)⟩

theorem appendRevocation_outcome (l : Ledger) (a : RevocationArgs) :
    l.RevocationOutcome a (l.appendRevocation a) := by
  unfold appendRevocation
  cases hcheck : checkRevocation a with
  | error e => exact .refused e
  | ok rows =>
    simp only
    rcases hanswer : l.idempotentAnswer a.idempotency with e | _ | existing
    · exact .refused e
    · rcases validateAnnotationRows (initialMetaAnnotationRows rows) with e | _
      · exact .refused e
      · simp only
        rcases hs : l.session (l.revocationBody ⟨effectiveId a.revokerAsrtId
          a.revokes.revokerAsrtId a.newId, a.revokes.revokedAsrtId⟩ rows
          (initialMetaAnnotationRows rows)) with ⟨l', e | u⟩
        · obtain rfl := session_refused (fun t hook h => total_revocationBody h) hs
          exact .refused e
        · exact .written hcheck rfl hs
    · exact .answered hanswer

end Ledger

/-! ## Writes that go through -/

/-- A term with a cell has a column. -/
theorem exists_encodeClaimValue {term : Term} {atom : Rules.Value}
    (h : valAtomForClaimArg term.1 term.2 = .ok atom) :
    ∃ s, encodeClaimValue term = .ok s := by
  obtain ⟨tag, value⟩ := term
  unfold encodeClaimValue
  rw [h, ok_bind]
  by_cases htag : tag = "float64"
  · subst htag
    obtain ⟨bits, hbits, _⟩ := map_ok_iff.mp h
    simp only [hbits, ok_bind]
    exact ⟨_, rfl⟩
  · have hatom : (∃ s, atom = .str s) ∨ (∃ i, atom = .int i) ∨ ∃ b, atom = .bool b := by
      unfold valAtomForClaimArg at h
      split at h
      case h_8 =>
        split at h <;> cases h
        exact .inl ⟨_, rfl⟩
      case h_9 => cases h
      all_goals
        obtain ⟨x, _, rfl⟩ := map_ok_iff.mp h
        simp
    rcases hatom with ⟨s, rfl⟩ | ⟨i, rfl⟩ | ⟨b, rfl⟩
    all_goals
      split <;> simp_all

theorem exists_encodeTerms {terms : List Term}
    (h : ∀ t ∈ terms, ∃ atom, valAtomForClaimArg t.1 t.2 = .ok atom) :
    ∃ s, encodeTerms terms = .ok s := by
  match terms with
  | [] => exact ⟨.none, rfl⟩
  | [t] =>
    obtain ⟨atom, hatom⟩ := h t List.mem_cons_self
    exact exists_encodeClaimValue hatom
  | t :: u :: terms => exact ⟨_, rfl⟩
namespace Tables

/-- The sequence number of a direct write is new. -/
theorem txSeq_lt_nextDirectTxSeq {t : Tables} {r : ClaimMetaRow} (h : r ∈ t.claimMeta.rows) :
    r.txSeq < t.nextDirectTxSeq := by
  unfold nextDirectTxSeq
  have hmem : r.txSeq ∈ t.claims.rows.map (·.txRef) ++ t.claimMeta.rows.map (·.txSeq) :=
    List.mem_append_right _ (List.mem_map_of_mem h)
  cases hmax : (t.claims.rows.map (·.txRef) ++ t.claimMeta.rows.map (·.txSeq)).max? with
  | none =>
    rw [List.max?_eq_none_iff.mp hmax] at hmem
    cases hmem
  | some m => exact Nat.lt_succ_of_le ((List.max?_eq_some_iff.mp hmax).2 _ hmem)

theorem insertAll_of_fresh {rows : List ClaimMetaRow} {m : MetaTable}
    (hnodup : (rows.map (·.primaryKey)).Nodup)
    (hfresh : ∀ r ∈ rows, r.primaryKey ∉ m.rows.map (·.primaryKey)) :
    ∃ m', rows.foldlM (fun m r => m.insert r) m = .ok m' := by
  induction rows generalizing m with
  | nil => exact ⟨m, rfl⟩
  | cons r rows ih =>
    obtain ⟨hr, hrows⟩ := List.nodup_cons.mp hnodup
    obtain ⟨m₁, hm₁⟩ : ∃ m₁, m.insert r = .ok m₁ := by
      unfold MetaTable.insert
      rw [dif_neg (hfresh r List.mem_cons_self)]
      exact ⟨_, rfl⟩
    rw [List.foldlM_cons, hm₁]
    apply ih hrows
    intro s hs hmem
    rw [insert_rows hm₁, List.map_append, List.mem_append] at hmem
    rcases hmem with hmem | hmem
    · exact hfresh s (List.mem_cons_of_mem r hs) hmem
    · have hkey : s.primaryKey = r.primaryKey := List.mem_singleton.mp hmem
      apply hr
      show r.primaryKey ∈ rows.map (·.primaryKey)
      rw [← hkey]
      exact List.mem_map_of_mem hs

/-- Rows of one assertion at a position new to it are inserted if they can be encoded. -/
theorem insertMetaRows_of_fresh {t : Tables} {asrtId : String} {n op : Nat}
    {appends : List MetaAppend} (hn : ∀ r ∈ t.claimMeta.rows, r.asrtId = asrtId → r.txSeq ≠ n)
    (hkeys : (appends.map (·.key.text)).Nodup)
    (hencode : ∀ a ∈ appends, ∃ r, encodeAppend asrtId n op a = .ok r) :
    ∃ t', t.insertMetaRows asrtId n op appends = .ok t' := by
  obtain ⟨rows, hrows⟩ := exists_mapOk hencode
  have hprimary : rows.map (·.primaryKey) = appends.map fun a => (asrtId, a.key.text, n, op) :=
    map_of_mapOk hrows fun a r ha => (encodeAppend_key ha).1
  have hnodup : (rows.map (·.primaryKey)).Nodup := by
    rw [hprimary]
    have hinjective : Function.Injective fun k : String => (asrtId, k, n, op) := by
      intro k k' hk
      simpa using hk
    simpa [List.map_map, Function.comp_def] using hkeys.map hinjective
  have hfresh : ∀ r ∈ rows, r.primaryKey ∉ t.claimMeta.rows.map (·.primaryKey) := by
    intro r hr hmem
    obtain ⟨s, hs, hsr⟩ := List.mem_map.mp hmem
    obtain ⟨a, _, ha⟩ := mem_of_mapOk hrows hr
    have hkey := hsr.trans (encodeAppend_key ha).1
    unfold ClaimMetaRow.primaryKey at hkey
    obtain ⟨hid, hrest⟩ := Prod.ext_iff.mp hkey
    exact hn s hs hid (Prod.ext_iff.mp (Prod.ext_iff.mp hrest).2).1
  obtain ⟨m, hm⟩ := insertAll_of_fresh hnodup hfresh
  unfold insertMetaRows MetaTable.insertMetaRows
  rw [hrows, ok_bind, hm]
  exact ⟨_, rfl⟩

end Tables

namespace Ledger

/-- Metadata that can be stored. -/
def Encodable (metaRows : List MetaRow) : Prop :=
  ∀ r ∈ metaRows, ∃ s, encodeMetaValue r.kind r.value = .ok s

theorem encodable_of_insertAssertion {t t' : Tables} {claim : Claim} {metaRows : List MetaRow}
    {annotationRows : List AnnotationRow} {n op : Nat}
    (h : insertAssertion t claim metaRows annotationRows n op = .ok t') : Encodable metaRows := by
  unfold insertAssertion at h
  obtain ⟨_, _, h⟩ := bind_ok_iff.mp h
  obtain ⟨_, hmeta, _⟩ := bind_ok_iff.mp h
  unfold Tables.insertMetaRows at hmeta
  obtain ⟨_, hm, _⟩ := bind_ok_iff.mp hmeta
  unfold MetaTable.insertMetaRows at hm
  obtain ⟨rows, hrows, _⟩ := bind_ok_iff.mp hm
  intro r hr
  obtain ⟨_, _, hencode⟩ := image_of_mapOk hrows (List.mem_map_of_mem (f := MetaAppend.row) hr)
  unfold encodeAppend at hencode
  cases hs : encodeMetaValue r.kind r.value with
  | ok s => exact ⟨s, rfl⟩
  | error e => simp [hs, Except.map] at hencode

theorem encodable_of_session {l l' : Ledger} {w : AssertionWrite}
    (h : l.session (l.assertionBody w) = (l', .ok ())) : Encodable w.metaRows := by
  unfold session at h
  simp only [Prod.mk.injEq] at h
  obtain ⟨hook, hbody, _⟩ := Session.run_ok_iff.mp (Prod.ext rfl h.2)
  unfold assertionBody at hbody
  obtain ⟨t, ht, _⟩ := bind_ok_iff.mp hbody
  exact encodable_of_insertAssertion ht

/-- A revocation that went through has stored its claim and its metadata. -/
theorem stored_of_session {l l' : Ledger} {revokes : Revokes} {metaRows : List MetaRow}
    {annotationRows : List AnnotationRow} (hids : ∀ r ∈ metaRows, r.asrtId = revokes.revokerAsrtId)
    (h : l.session (l.revocationBody revokes metaRows annotationRows) = (l', .ok ())) :
    l'.writtenIds = l.writtenIds ++ [revokes.revokerAsrtId] ∧ Encodable metaRows := by
  unfold session at h
  rcases hrun : Session.run (l.revocationBody revokes metaRows annotationRows)
    (l.tables, l.indexes) with ⟨s, res⟩
  rw [hrun] at h
  cases h
  rcases Session.run_ok_iff.mp hrun with ⟨hook, hbody, _⟩
  unfold revocationBody at hbody
  cases htarget : l.getClaim revokes.revokedAsrtId with
  | none => simp [htarget] at hbody
  | some target =>
    simp only [htarget] at hbody
    rcases bind_ok_iff.mp hbody with ⟨t, ht, hbody⟩
    rcases tables_insertAssertion (l := l) hids ht with ⟨ms, hgrown, _⟩
    rcases hgrown.claims with ⟨rows, hrows, hof⟩
    have hids : rows.map (·.asrtId) = [revokes.revokerAsrtId] := rows_asrtId hof
    refine ⟨?_, encodable_of_insertAssertion ht⟩
    have htables := congrArg Prod.fst (Except.ok.inj hbody)
    unfold writtenIds
    rw [← htables, hrows, List.map_append, hids]

/-- A claim with a fresh id whose metadata can be stored, and whose annotations its metadata stands
for, is inserted. -/
theorem insertAssertion_of_fresh {t : Tables} {claim : Claim} {metaRows : List MetaRow}
    {annotationRows : List AnnotationRow} {n op : Nat} (hclaim : claim.Storable)
    (hfresh : claim.asrtId ∉ t.claims.rows.map (·.asrtId))
    (hn : ∀ r ∈ t.claimMeta.rows, r.asrtId = claim.asrtId → r.txSeq ≠ n)
    (hkeys : (metaRows.map (·.key.text)).Nodup) (hencode : Encodable metaRows)
    (hannotations : annotationCompatibilityMetaRows annotationRows metaRows = .ok []) :
    ∃ t', insertAssertion t claim metaRows annotationRows n op = .ok t' ∧
      t'.claims.rows.map (·.asrtId) = t.claims.rows.map (·.asrtId) ++ [claim.asrtId] ∧
      ∀ r ∈ t'.claimMeta.rows, r ∈ t.claimMeta.rows ∨ r.asrtId = claim.asrtId := by
  obtain ⟨t₁, ht₁, hids⟩ := insert_of_fresh hclaim hfresh n
  have hmeta : t₁.claimMeta.rows = t.claimMeta.rows := by
    simpa using (Tables.grown_insertClaim ht₁).claimMeta
  obtain ⟨t₂, ht₂⟩ : ∃ t₂, t₁.insertMetaRows claim.asrtId n op (metaRows.map .row) = .ok t₂ := by
    apply Tables.insertMetaRows_of_fresh
    · rwa [hmeta]
    · simpa [List.map_map, Function.comp_def, MetaAppend.key] using hkeys
    · intro a ha
      obtain ⟨r, hr, rfl⟩ := List.mem_map.mp ha
      obtain ⟨s, hs⟩ := hencode r hr
      refine ⟨⟨claim.asrtId, r.key, some s, n, op⟩, ?_⟩
      simp only [encodeAppend, hs, Except.map]
  obtain ⟨ms, hgrown, hprimary⟩ := Tables.grown_insertMetaRows ht₂
  have hclaims : t₂.claims.rows = t₁.claims.rows := by
    obtain ⟨rows, hrows, hof⟩ := hgrown.claims
    cases hof
    rw [hrows, List.append_nil]
  refine ⟨t₂, ?_, by rw [hclaims, hids], ?_⟩
  · unfold insertAssertion
    rw [ht₁, ok_bind, ht₂, ok_bind]
    by_cases hempty : annotationRows.isEmpty = true
    · rw [if_pos hempty]
    · rw [if_neg hempty]
      unfold Tables.insertAnnotationRows
      rw [hannotations, ok_bind]
      rfl
  · intro r hr
    rw [hgrown.claimMeta, hmeta] at hr
    rcases List.mem_append.mp hr with hr | hr
    · exact .inl hr
    · have hmem : r.primaryKey ∈ ms.map (·.primaryKey) := List.mem_map_of_mem hr
      rw [hprimary] at hmem
      obtain ⟨_, _, hkey⟩ := List.mem_map.mp hmem
      exact .inr (Prod.ext_iff.mp hkey).1.symm

/-- `append_assertion` of a claim that can be inserted writes it. -/
theorem appendAssertion_of_fresh {l : Ledger} {a : AssertionArgs} {rows : List MetaRow}
    {w : AssertionWrite} (hcheck : checkAssertion a = .ok rows)
    (hfree : l.idempotentAnswer a.idempotency = .ok none) (hbuild : buildAssertion a rows = .ok w)
    (hinsert : ∃ t, insertAssertion l.tables w.claim w.metaRows w.annotationRows
      l.tables.nextDirectTxSeq 0 = .ok t) :
    ∃ l', l.appendAssertion a = (l', .ok ⟨w.claim.asrtId, true⟩) := by
  obtain ⟨t, ht⟩ := hinsert
  have hbody : l.assertionBody w l.tables = .ok (t, l.assertionHook w.claim w.metaRows
      w.annotationRows l.tables.nextDirectTxSeq 0) := by
    unfold assertionBody
    simp only [ht, ok_bind]
  obtain ⟨f, hf⟩ := total_assertionBody hcheck hbuild hbody
  refine ⟨{ l with tables := t, indexes := f l.indexes }, ?_⟩
  unfold appendAssertion
  simp only [hcheck, hfree, hbuild, session]
  rw [Session.run_of_ok (s := (l.tables, l.indexes)) hbody, hf]
  rfl

end Ledger

end FactGraph.Store
