import FactGraph.Store.Commit

/-!
# Every index is a view of its list

The indexes of a ledger are redundant: each dictionary answers a question about one of the four lists
of claims, events, metadata rows and revocations. `Indexes.Coherent` says that it gives the answer
the list gives. Every update of `Store/Indexes.lean` keeps this, so every hook does, one that raises
half way included.
-/

namespace FactGraph.Store

open Protocol Check Session

namespace Indexes

/-! ## Coherence -/

/-- The dictionaries answer as the lists do. -/
structure Coherent (m : Indexes) : Prop where
  byId : ∀ a, Dict.get? m.claimByAsrtId a = (m.claims.filter fun c => c.asrtId = a).getLast?
  byPredId : Buckets.Indexes Claim.predId id m.claims m.claimsByPredId
  byERef : Buckets.Indexes Claim.eRef id m.claims m.claimsByERef
  byPredERef : Buckets.Indexes (fun c : Claim => (c.predId, c.eRef)) id m.claims m.claimsByPredERef
  argsById : Buckets.Indexes ClaimArg.asrtId id m.claimArgs m.claimArgsByAsrtId
  eventsById : Buckets.Indexes MetaEvent.asrtId id m.claimMetaEvents m.claimMetaEventsByAsrtId
  eventsByIdKey : Buckets.Indexes (fun e : MetaEvent => (e.asrtId, e.key)) id m.claimMetaEvents
    m.claimMetaEventsByAsrtIdKey
  rowsById : Buckets.Indexes MetaRow.asrtId id m.metaRowsData m.metaByAsrtId
  rowsByKind : Buckets.Indexes MetaRow.kind id m.metaRowsData m.metaByKind
  rowsByKey : Buckets.Indexes MetaRow.key id m.metaRowsData m.metaByKey
  rowsByIdKey : Buckets.Indexes (fun r : MetaRow => (r.asrtId, r.key)) id m.metaRowsData
    m.metaByAsrtIdKey
  rowsByIdKeyKind : Buckets.Indexes (fun r : MetaRow => (r.asrtId, r.key, r.kind)) id m.metaRowsData
    m.metaByAsrtIdKeyKind
  ingestKeys : ∀ k, Buckets.get m.metaIngestKeyAsrtIds k =
    (m.metaRowsData.filter fun r => ingestKey? r = some k).map MetaRow.asrtId
  revoked : ∀ a, a ∈ m.revokedAsrtIds ↔ ∃ r ∈ m.revokesData, r.revokedAsrtId = a
  revokers : ∀ a, a ∈ m.revokerAsrtIds ↔ ∃ r ∈ m.revokesData, r.revokerAsrtId = a
  firstRevoker : ∀ a, Dict.get? m.firstRevokerByRevokedAsrtId a =
    (m.revokesData.find? fun r => r.revokedAsrtId = a).map Revokes.revokerAsrtId

theorem coherent_empty : Coherent {} where
  byId _ := rfl
  byPredId := Buckets.indexes_nil _ _
  byERef := Buckets.indexes_nil _ _
  byPredERef := Buckets.indexes_nil _ _
  argsById := Buckets.indexes_nil _ _
  eventsById := Buckets.indexes_nil _ _
  eventsByIdKey := Buckets.indexes_nil _ _
  rowsById := Buckets.indexes_nil _ _
  rowsByKind := Buckets.indexes_nil _ _
  rowsByKey := Buckets.indexes_nil _ _
  rowsByIdKey := Buckets.indexes_nil _ _
  rowsByIdKeyKind := Buckets.indexes_nil _ _
  ingestKeys _ := rfl
  revoked _ := by simp
  revokers _ := by simp
  firstRevoker _ := rfl

variable {m : Indexes}

theorem Coherent.addClaim (h : Coherent m) (claim : Claim) : Coherent (m.addClaim claim) :=
  { h with
    byId := by
      intro a
      by_cases ha : a = claim.asrtId
      · simp [Indexes.addClaim, Dict.get?_set, ha, List.filter_append]
      · simp [Indexes.addClaim, Dict.get?_set, ha, List.filter_append, Ne.symm ha, h.byId a]
    byPredId := h.byPredId.add claim
    byERef := h.byERef.add claim
    byPredERef := h.byPredERef.add claim }

theorem Coherent.addClaimArg (h : Coherent m) (row : ClaimArg) : Coherent (m.addClaimArg row) :=
  { h with argsById := h.argsById.add row }

theorem Coherent.setTxRef (h : Coherent m) (a : String) (n : Nat) : Coherent (m.setTxRef a n) :=
  { h with }

theorem Coherent.setOpOrdinal (h : Coherent m) (a : String) (n : Nat) :
    Coherent (m.setOpOrdinal a n) :=
  { h with }

theorem Coherent.addSystemClaim (h : Coherent m) (claim : Claim) :
    Coherent (m.addSystemClaim claim) :=
  { h with }

theorem Coherent.addMetaEvent (h : Coherent m) (e : MetaEvent) : Coherent (m.addMetaEvent e) :=
  { h with
    eventsById := h.eventsById.add e
    eventsByIdKey := h.eventsByIdKey.add e }

theorem Coherent.addMetaRow (h : Coherent m) (row : MetaRow) : Coherent (m.addMetaRow row) :=
  { h with
    rowsById := h.rowsById.add row
    rowsByKind := h.rowsByKind.add row
    rowsByKey := h.rowsByKey.add row
    rowsByIdKey := h.rowsByIdKey.add row
    rowsByIdKeyKind := h.rowsByIdKeyKind.add row
    ingestKeys := by
      intro k
      cases hk : ingestKey? row with
      | none => simp [Indexes.addMetaRow, hk, h.ingestKeys k, List.filter_append]
      | some key =>
        by_cases hkk : k = key
        · subst hkk
          simp [Indexes.addMetaRow, hk, h.ingestKeys k, List.filter_append]
        · simp [Indexes.addMetaRow, hk, Buckets.get_add_of_ne hkk, h.ingestKeys k,
            List.filter_append, Ne.symm hkk] }

theorem Coherent.removeAnnotationRow (h : Coherent m) (row : AnnotationRow) :
    Coherent (m.removeAnnotationRow row) :=
  { h with }

theorem Coherent.addAnnotationRow (h : Coherent m) (row : AnnotationRow) :
    Coherent (m.addAnnotationRow row) := by
  unfold Indexes.addAnnotationRow
  cases Dict.get? m.annoByIdentity row.slot with
  | none => exact { h with }
  | some existing => exact { h.removeAnnotationRow existing with }

theorem Coherent.idxAddRevoke (h : Coherent m) (row : Revokes) : Coherent (m.idxAddRevoke row) :=
  { h with
    revoked := by
      intro a
      simp only [Indexes.idxAddRevoke, Finset.mem_insert, h.revoked a, List.mem_append,
        List.mem_singleton]
      constructor
      · rintro (rfl | ⟨r, hr, rfl⟩)
        · exact ⟨row, .inr rfl, rfl⟩
        · exact ⟨r, .inl hr, rfl⟩
      · rintro ⟨r, hr | rfl, rfl⟩
        · exact .inr ⟨r, hr, rfl⟩
        · exact .inl rfl
    revokers := by
      intro a
      simp only [Indexes.idxAddRevoke, Finset.mem_insert, h.revokers a, List.mem_append,
        List.mem_singleton]
      constructor
      · rintro (rfl | ⟨r, hr, rfl⟩)
        · exact ⟨row, .inr rfl, rfl⟩
        · exact ⟨r, .inl hr, rfl⟩
      · rintro ⟨r, hr | rfl, rfl⟩
        · exact .inr ⟨r, hr, rfl⟩
        · exact .inl rfl
    firstRevoker := by
      intro a
      have hfirst := h.firstRevoker a
      simp only [Indexes.idxAddRevoke, List.find?_append]
      by_cases hhas : Dict.has m.firstRevokerByRevokedAsrtId row.revokedAsrtId = true
      · rw [if_pos hhas, hfirst]
        cases hf : m.revokesData.find? fun r => r.revokedAsrtId = a with
        | some r => rfl
        | none =>
          have hne : row.revokedAsrtId ≠ a := by
            intro he
            subst he
            rw [hf] at hfirst
            simp [Dict.has, hfirst] at hhas
          simp [hne]
      · rw [if_neg hhas, Dict.get?_set]
        by_cases ha : a = row.revokedAsrtId
        · subst ha
          have hnone : Dict.get? m.firstRevokerByRevokedAsrtId row.revokedAsrtId = none := by
            simpa [Dict.has] using hhas
          rw [hnone] at hfirst
          have hf : m.revokesData.find? (fun r => r.revokedAsrtId = row.revokedAsrtId) = none := by
            simpa using hfirst.symm
          simp [hf]
        · rw [if_neg ha, hfirst]
          cases hf : m.revokesData.find? fun r => r.revokedAsrtId = a with
          | some r => rfl
          | none => simp [Ne.symm ha] }

theorem foldl_keeps {α : Type} {f : Indexes → α → Indexes} {P : Indexes → Prop} {as : List α}
    (hf : ∀ m, ∀ a ∈ as, P m → P (f m a)) (h : P m) : P (as.foldl f m) := by
  induction as generalizing m with
  | nil => exact h
  | cons a as ih =>
    exact ih (fun m b hb => hf m b (List.mem_cons_of_mem a hb)) (hf m a List.mem_cons_self h)

/-! ## What every write keeps -/

/-- A property of the indexes that the updates of a write at sequence number `n` keep, a write that
places no other ids than `ids`; what is lazy never gets here. -/
structure Stable (isLazy : String → Bool) (n : Nat) (ids : String → Prop) (P : Indexes → Prop) :
    Prop where
  addClaim : ∀ m c, P m → P (m.addClaim c)
  addClaimArg : ∀ m row, P m → P (m.addClaimArg row)
  addSystemClaim : ∀ m c, P m → P (m.addSystemClaim c)
  setTxRef : ∀ m a, ids a → P m → P (m.setTxRef a n)
  setOpOrdinal : ∀ m a op, ids a → P m → P (m.setOpOrdinal a op)
  addMetaEvent : ∀ m e, isLazy e.key.text = false → e.txSeq = n → P m → P (m.addMetaEvent e)
  addMetaRow : ∀ m row, isLazy row.key.text = false → P m → P (m.addMetaRow row)
  addAnnotationRow : ∀ m row, isLazy row.key = false → P m → P (m.addAnnotationRow row)
  idxAddRevoke : ∀ m row, P m → P (m.idxAddRevoke row)

theorem stable_coherent (isLazy : String → Bool) (n : Nat) (ids : String → Prop) :
    Stable isLazy n ids Coherent where
  addClaim _ c hm := hm.addClaim c
  addClaimArg _ row hm := hm.addClaimArg row
  addSystemClaim _ c hm := hm.addSystemClaim c
  setTxRef _ a _ hm := hm.setTxRef a n
  setOpOrdinal _ a op _ hm := hm.setOpOrdinal a op
  addMetaEvent _ e _ _ hm := hm.addMetaEvent e
  addMetaRow _ row _ hm := hm.addMetaRow row
  addAnnotationRow _ row _ hm := hm.addAnnotationRow row
  idxAddRevoke _ row hm := hm.idxAddRevoke row

namespace Stable

variable {isLazy : String → Bool} {n : Nat} {ids : String → Prop} {P : Indexes → Prop}
  (hP : Stable isLazy n ids P)
include hP

theorem addClaimArgs (h : P m) (a : String) (rows : List ArgRow) : P (m.addClaimArgs a rows) :=
  foldl_keeps (fun m row _ hm => hP.addClaimArg m row hm) h

theorem idxAddMeta (h : P m) (rows : List MetaRow) : P (m.idxAddMeta isLazy rows) := by
  refine foldl_keeps ?_ h
  intro m row hrow hm
  exact hP.addMetaRow m row (by simpa using (List.mem_filter.mp hrow).2) hm

theorem idxAddClaimMetaEvents (h : P m) (appends : List MetaAppend) (op : Nat)
    (projectMeta : Bool) : P (m.idxAddClaimMetaEvents isLazy appends n op projectMeta) := by
  unfold Indexes.idxAddClaimMetaEvents
  have hev : P (((appends.map (eventOf n op)).filter fun e => !isLazy e.key.text).foldl
      Indexes.addMetaEvent m) := by
    refine foldl_keeps ?_ h
    intro m e he hm
    obtain ⟨hmem, hlazy⟩ := List.mem_filter.mp he
    obtain ⟨a, _, rfl⟩ := List.mem_map.mp hmem
    exact hP.addMetaEvent m _ (by simpa using hlazy) (by cases a <;> rfl) hm
  cases projectMeta with
  | false => exact hev
  | true => exact hP.idxAddMeta hev _

theorem idxAddAnnotations (h : P m) (rows : List AnnotationRow) :
    P (m.idxAddAnnotations isLazy rows) := by
  refine foldl_keeps ?_ h
  intro m row hrow hm
  exact hP.addAnnotationRow m row (by simpa using (List.mem_filter.mp hrow).2) hm

theorem place {a : String} (ha : ids a) (op : Nat) (h : P m) :
    P ((m.setTxRef a n).setOpOrdinal a op) :=
  hP.setOpOrdinal _ a op ha (hP.setTxRef m a ha h)

theorem idxAddSystemRevocationClaim {claim : Claim} (hc : ids claim.asrtId) {txRef : Option Nat}
    (htx : txRef.all (· = n)) :
    Hook.Preserves P (Indexes.idxAddSystemRevocationClaim claim txRef) := by
  unfold Indexes.idxAddSystemRevocationClaim
  split
  · exact Hook.preserves_fail _
  split
  · exact Hook.preserves_fail _
  · apply Hook.preserves_step
    intro m hm
    cases txRef with
    | none => exact hP.addSystemClaim m claim hm
    | some tx =>
      obtain rfl : tx = n := by simpa using htx
      exact hP.setTxRef _ _ hc (hP.addSystemClaim m claim hm)

theorem idxAddClaim {claim : Claim} (hc : ids claim.asrtId) :
    Hook.Preserves P (Indexes.idxAddClaim claim) := by
  unfold Indexes.idxAddClaim
  split
  · exact hP.idxAddSystemRevocationClaim hc rfl
  · exact Hook.Preserves.andThen (Hook.preserves_step fun m hm => hP.addClaim m claim hm)
      (Hook.preserves_bind fun rows _ => Hook.preserves_step fun _ hm => hP.addClaimArgs hm _ rows)

/-- A claim of the user is placed by its caller, not here. -/
theorem idxAddClaim_of_user {claim : Claim} (hu : startsWith systemPrefix claim.predId = false) :
    Hook.Preserves P (Indexes.idxAddClaim claim) := by
  unfold Indexes.idxAddClaim
  rw [if_neg (by simp [hu])]
  exact Hook.Preserves.andThen (Hook.preserves_step fun m hm => hP.addClaim m claim hm)
    (Hook.preserves_bind fun rows _ => Hook.preserves_step fun _ hm => hP.addClaimArgs hm _ rows)

/-- The index updates every recorded revocation starts with, then those of its own. -/
theorem recordRevocation {claim : Claim} (hc : ids claim.asrtId) {revokes : Revokes}
    (hid : revokes.revokerAsrtId = claim.asrtId) {op : Nat} {hook : Hook Indexes StoreErr}
    (h : Hook.Preserves P hook) :
    Hook.Preserves P ((Indexes.idxAddSystemRevocationClaim claim (some n)).andThen
      ((Hook.step fun m => (m.setOpOrdinal revokes.revokerAsrtId op).idxAddRevoke revokes).andThen
        hook)) := by
  apply (hP.idxAddSystemRevocationClaim hc (by simp)).andThen
  refine (Hook.preserves_step ?_).andThen h
  intro m hm
  exact hP.idxAddRevoke _ _ (hP.setOpOrdinal m _ op (hid ▸ hc) hm)

end Stable

end Indexes

open Indexes

/-! ## Writes -/

section

variable {n : Nat} {ids : String → Prop} {P : Indexes → Prop} {l : Ledger}
  (hP : Stable l.isLazy n ids P)
include hP

theorem Ledger.keeps_claimMetaHook (metaRows : List MetaRow)
    (annotationRows : List AnnotationRow) (op : Nat) :
    Hook.Preserves P (l.claimMetaHook metaRows annotationRows n op) := by
  unfold Ledger.claimMetaHook
  apply Hook.Preserves.andThen
  · exact Hook.preserves_step fun _ hm => hP.idxAddClaimMetaEvents hm _ _ _
  · split
    · exact Hook.preserves_step fun _ hm => hm
    · apply Hook.preserves_bind
      intro rows _
      apply Hook.preserves_step
      intro m hm
      exact hP.idxAddAnnotations (hP.idxAddClaimMetaEvents hm _ _ _) _

theorem Ledger.keeps_assertionHook {claim : Claim} (hc : ids claim.asrtId)
    (metaRows : List MetaRow) (annotationRows : List AnnotationRow) (op : Nat) :
    Hook.Preserves P (l.assertionHook claim metaRows annotationRows n op) :=
  (Hook.preserves_step fun _ hm => hP.place hc op hm).andThen
    ((hP.idxAddClaim hc).andThen (Ledger.keeps_claimMetaHook hP _ _ _))

theorem Batch.keeps_revocationHook (b : Batch) (op : Nat)
    {item : LedgerRevocationWrite} (hc : ids item.revokes.revokerAsrtId) :
    Hook.Preserves P (Batch.revocationHook l b n op item) := by
  intro m hm
  unfold Batch.revocationHook
  cases b.target? (Dict.get? m.claimByAsrtId ·) item.revokes.revokedAsrtId with
  | none => exact hm
  | some target =>
    exact hP.recordRevocation hc rfl (Ledger.keeps_claimMetaHook hP _ _ _) m hm

theorem Batch.keeps_appendHook (op : Nat) (a : MetaAppend) :
    Hook.Preserves P (Batch.appendHook l n op a) := by
  unfold Batch.appendHook
  split
  · split
    · exact Hook.preserves_step fun _ hm => hP.idxAddClaimMetaEvents hm _ _ _
    · apply Hook.Preserves.andThen
      · exact Hook.preserves_step fun _ hm => hP.idxAddClaimMetaEvents hm _ _ _
      · apply Hook.preserves_bind
        intro row _
        exact Hook.preserves_step fun _ hm => hP.idxAddAnnotations hm _
  · exact Hook.preserves_step fun _ hm => hP.idxAddClaimMetaEvents hm _ _ _

end

end FactGraph.Store
