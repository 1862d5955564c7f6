import FactGraph.Store.Runs

/-!
# What a commit stores

A commit writes metadata in three places: beside its claims, beside its revocations, and on its own.
`Batch.metaWrites` lists all of it, the compatibility rows of the annotations included, and
`Batch.stored_commitBody` says that the rows a commit adds to `claim_meta` are these, encoded one by
one.
-/

namespace FactGraph.Store

open Protocol Check Session

/-! ## Encoded rows -/

/-- What holds of the one list holds of the other. -/
theorem forall_iff_of_forall₂ {A B : Type} {R : A → B → Prop} {p : A → Prop} {q : B → Prop}
    {as : List A} {bs : List B} (h : List.Forall₂ R as bs) (hpq : ∀ a b, R a b → (p a ↔ q b)) :
    (∀ a ∈ as, p a) ↔ ∀ b ∈ bs, q b := by
  induction h with
  | nil => simp
  | cons hab _ ih => rw [List.forall_mem_cons, List.forall_mem_cons, hpq _ _ hab, ih]

theorem exists_of_forall₂ {A B : Type} {R : A → B → Prop} {as : List A} {bs : List B}
    (h : List.Forall₂ R as bs) : ∀ b ∈ bs, ∃ a ∈ as, R a b := by
  induction h with
  | nil => simp
  | @cons a b as bs hab _ ih =>
    intro c hc
    rcases List.mem_cons.mp hc with rfl | hc
    · exact ⟨a, List.mem_cons_self, hab⟩
    · obtain ⟨d, hd, hdc⟩ := ih c hc
      exact ⟨d, List.mem_cons_of_mem a hd, hdc⟩

/-- The row is the appended one, encoded at its ordinal of the transaction. -/
def ClaimMetaRow.Stores (n : Nat) (r : ClaimMetaRow) (w : MetaAppend × Nat) : Prop :=
  encodeAppend w.1.asrtId n w.2 w.1 = .ok r

/-- The table `claim_meta` grew by the encodings of `ws`, and the lifecycle entries are the same. -/
structure Tables.Stored (n : Nat) (t t' : Tables) (ws : List (MetaAppend × Nat)) : Prop where
  rows : ∃ ms, t'.claimMeta.rows = t.claimMeta.rows ++ ms ∧
    List.Forall₂ (ClaimMetaRow.Stores n) ms ws
  ledgerMeta : t'.ledgerMeta = t.ledgerMeta

/-- Rows written at one ordinal. -/
def writtenAt (op : Nat) (appends : List MetaAppend) : List (MetaAppend × Nat) :=
  appends.map fun a => (a, op)

namespace Tables

variable {n op : Nat} {t t' t'' : Tables}

theorem Stored.refl (n : Nat) (t : Tables) : Stored n t t [] := ⟨⟨[], by simp⟩, rfl⟩

theorem Stored.trans {as bs : List (MetaAppend × Nat)} (h : Stored n t t' as)
    (k : Stored n t' t'' bs) : Stored n t t'' (as ++ bs) := by
  obtain ⟨ms, hms, hof⟩ := h.rows
  obtain ⟨ms', hms', hof'⟩ := k.rows
  refine ⟨⟨ms ++ ms', ?_, List.rel_append hof hof'⟩, k.ledgerMeta.trans h.ledgerMeta⟩
  rw [hms', hms, List.append_assoc]

theorem stores_of_mapOk {asrtId : String} {appends : List MetaAppend} {rows : List ClaimMetaRow}
    (hids : ∀ a ∈ appends, a.asrtId = asrtId)
    (h : mapOk (encodeAppend asrtId n op) appends = .ok rows) :
    List.Forall₂ (ClaimMetaRow.Stores n) rows (writtenAt op appends) := by
  rw [mapOk_ok_iff] at h
  induction h with
  | nil => exact .nil
  | cons har _ ih =>
    refine .cons ?_ (ih fun b hb => hids b (List.mem_cons_of_mem _ hb))
    unfold ClaimMetaRow.Stores
    rw [hids _ List.mem_cons_self]
    exact har

theorem stored_insertMetaRows {appends : List MetaAppend} {asrtId : String}
    (hids : ∀ a ∈ appends, a.asrtId = asrtId)
    (h : t.insertMetaRows asrtId n op appends = .ok t') :
    Stored n t t' (writtenAt op appends) := by
  unfold insertMetaRows at h
  obtain ⟨m, hm, h⟩ := bind_ok_iff.mp h
  cases h
  unfold MetaTable.insertMetaRows at hm
  obtain ⟨rows, hrows, hm⟩ := bind_ok_iff.mp hm
  exact ⟨⟨rows, insertAll_rows hm, stores_of_mapOk hids hrows⟩, rfl⟩

/-- Compatibility rows are inserted one statement each. -/
theorem stored_insertRows {rows : List MetaRow}
    (h : rows.foldlM (fun t r => t.insertMetaRows r.asrtId n op [.row r]) t = .ok t') :
    Stored n t t' (writtenAt op (rows.map .row)) := by
  induction rows generalizing t with
  | nil =>
    cases h
    exact Stored.refl n _
  | cons r rows ih =>
    rw [List.foldlM_cons] at h
    obtain ⟨t₁, ht₁, h⟩ := bind_ok_iff.mp h
    have hr : Stored n t t₁ (writtenAt op [.row r]) :=
      stored_insertMetaRows (by simp [MetaAppend.asrtId]) ht₁
    exact hr.trans (ih h)

end Tables

open Tables

/-- The compatibility rows of annotations, none if they cannot be computed. -/
def compatibilityRows (annotationRows : List AnnotationRow) (metaRows : List MetaRow) :
    List MetaRow :=
  match annotationCompatibilityMetaRows annotationRows metaRows with
  | .ok rows => rows
  | .error _ => []

theorem compatibilityRows_nil (metaRows : List MetaRow) : compatibilityRows [] metaRows = [] := by
  unfold compatibilityRows
  cases h : annotationCompatibilityMetaRows [] metaRows with
  | error e => rfl
  | ok rows => exact Ledger.annotationCompatibilityMetaRows_nil h

/-- The rows written beside one claim. -/
def besideClaim (metaRows : List MetaRow) (annotationRows : List AnnotationRow) : List MetaAppend :=
  metaRows.map .row ++ (compatibilityRows annotationRows metaRows).map .row

theorem Ledger.stored_insertAssertion {n op : Nat} {t t' : Tables} {claim : Claim}
    {metaRows : List MetaRow} {annotationRows : List AnnotationRow}
    (hids : ∀ r ∈ metaRows, r.asrtId = claim.asrtId)
    (h : insertAssertion t claim metaRows annotationRows n op = .ok t') :
    Stored n t t' (writtenAt op (besideClaim metaRows annotationRows)) := by
  unfold insertAssertion at h
  obtain ⟨t₁, ht₁, h⟩ := bind_ok_iff.mp h
  obtain ⟨t₂, ht₂, h⟩ := bind_ok_iff.mp h
  have hclaim : Stored n t t₁ [] := by
    unfold Tables.insertClaim at ht₁
    obtain ⟨claims, _, ht₁⟩ := bind_ok_iff.mp ht₁
    cases ht₁
    exact ⟨⟨[], by simp⟩, rfl⟩
  have hmeta : Stored n t₁ t₂ (writtenAt op (metaRows.map .row)) := by
    apply stored_insertMetaRows _ ht₂
    intro a ha
    obtain ⟨r, hr, rfl⟩ := List.mem_map.mp ha
    exact hids r hr
  unfold besideClaim writtenAt
  rw [List.map_append]
  by_cases hempty : annotationRows.isEmpty = true
  · rw [if_pos hempty] at h
    cases h
    rw [List.isEmpty_iff.mp hempty, compatibilityRows_nil]
    simpa [writtenAt] using hclaim.trans hmeta
  · rw [if_neg hempty] at h
    unfold Tables.insertAnnotationRows at h
    obtain ⟨compatibility, hc, h⟩ := bind_ok_iff.mp h
    have hcompat : compatibilityRows annotationRows metaRows = compatibility := by
      simp [compatibilityRows, hc]
    rw [hcompat]
    exact hclaim.trans (hmeta.trans (stored_insertRows h))

theorem Ledger.stored_insertOneByOne {n : Nat} {appends : List MetaAppend} :
    ∀ {op : Nat} {t t' : Tables}, insertOneByOne n op t appends = .ok t' →
      Stored n t t' (appends.zipIdx op) := by
  induction appends with
  | nil =>
    intro op t t' h
    cases h
    exact Stored.refl n t
  | cons a appends ih =>
    intro op t t' h
    unfold insertOneByOne at h
    obtain ⟨t₁, ht₁, h⟩ := bind_ok_iff.mp h
    have ha : Stored n t t₁ (writtenAt op [a]) := stored_insertMetaRows (by simp) ht₁
    exact ha.trans (ih h)

/-! ## Commits -/

namespace Batch

/-- The metadata written beside the claims of a batch, from ordinal `op` on. -/
def besideAssertions (op : Nat) (items : List LedgerAssertionWrite) : List (MetaAppend × Nat) :=
  (items.zipIdx op).flatMap fun p =>
    writtenAt p.2 (besideClaim p.1.metaRows p.1.annotationRows)

/-- The metadata written beside the revocations of a batch, from ordinal `op` on. -/
def besideRevocations (op : Nat) (items : List LedgerRevocationWrite) : List (MetaAppend × Nat) :=
  (items.zipIdx op).flatMap fun p =>
    writtenAt p.2 (besideClaim p.1.metaRows p.1.annotationRows)

/-- All the metadata a commit writes, each row with its ordinal. -/
def metaWrites (b : Batch) : List (MetaAppend × Nat) :=
  besideAssertions 0 b.mergedAssertions ++
    (besideRevocations b.assertions.length b.mergedRevocations ++
      b.metaAppends.zipIdx (b.assertions.length + b.revocations.length))

theorem stored_insertAssertions {n : Nat} {items : List LedgerAssertionWrite} :
    ∀ {op : Nat} {t t' : Tables},
      (∀ item ∈ items, ∀ r ∈ item.metaRows, r.asrtId = item.claim.asrtId) →
      insertAssertions n op t items = .ok t' → Stored n t t' (besideAssertions op items) := by
  induction items with
  | nil =>
    intro op t t' _ h
    cases h
    exact Stored.refl n t
  | cons item items ih =>
    intro op t t' hids h
    unfold insertAssertions at h
    obtain ⟨t₁, ht₁, h⟩ := bind_ok_iff.mp h
    have hitem := Ledger.stored_insertAssertion (hids item List.mem_cons_self) ht₁
    exact hitem.trans (ih (fun x hx => hids x (List.mem_cons_of_mem _ hx)) h)

theorem stored_insertRevocations {l : Ledger} {b : Batch} {n : Nat}
    {items : List LedgerRevocationWrite} :
    ∀ {op : Nat} {t t' : Tables},
      (∀ item ∈ items, ∀ r ∈ item.metaRows, r.asrtId = item.revokes.revokerAsrtId) →
      insertRevocations b l n op t items = .ok t' → Stored n t t' (besideRevocations op items) := by
  induction items with
  | nil =>
    intro op t t' _ h
    cases h
    exact Stored.refl n t
  | cons item items ih =>
    intro op t t' hids h
    unfold insertRevocations at h
    cases htarget : b.target? l.getClaim item.revokes.revokedAsrtId with
    | none => simp [htarget] at h
    | some target =>
      simp only [htarget] at h
      obtain ⟨t₁, ht₁, h⟩ := bind_ok_iff.mp h
      have hitem := Ledger.stored_insertAssertion (hids item List.mem_cons_self) ht₁
      exact hitem.trans (ih (fun x hx => hids x (List.mem_cons_of_mem _ hx)) h)

/-- **The metadata of a commit** is stored row by row, under the new head. -/
theorem stored_commitBody {l : Ledger} {b : Batch} {n : Nat} (hcheck : b.check l = .ok n)
    {t : Tables} {hook : Hook Indexes StoreErr}
    (h : l.commitBody b n l.tables = .ok (t, hook)) :
    Dict.get? l.tables.ledgerMeta "head_tx_id" = b.expectedHeadTxId ∧
      ∃ t₀ t₁, b.swapHead l.tables = .ok t₀ ∧ Stored n t₀ t₁ b.metaWrites ∧
        t = b.upsertMetadata t₁ := by
  obtain ⟨_, hassertions, hrevocations⟩ := check_ok hcheck
  unfold Ledger.commitBody at h
  obtain ⟨t', hbody, h⟩ := bind_ok_iff.mp h
  cases h
  unfold body at hbody
  obtain ⟨_, hbody⟩ := bind_unit_ok_iff.mp hbody
  obtain ⟨t₀, ht₀, hbody⟩ := bind_ok_iff.mp hbody
  obtain ⟨t₁, ht₁, hbody⟩ := bind_ok_iff.mp hbody
  obtain ⟨t₂, ht₂, hbody⟩ := bind_ok_iff.mp hbody
  obtain ⟨t₃, ht₃, hbody⟩ := bind_ok_iff.mp hbody
  cases hbody
  have hclaims := stored_insertAssertions (fun item hitem => (hassertions item hitem).2) ht₁
  have hrevokes := stored_insertRevocations hrevocations ht₂
  have happends := Ledger.stored_insertOneByOne ht₃
  exact ⟨(swapHead_ok_iff.mp ht₀).1, t₀, t₃, ht₀, hclaims.trans (hrevokes.trans happends), rfl⟩

/-- The rows a commit adds to `claim_meta`. -/
theorem metaRows_of_commitBody {l : Ledger} {b : Batch} {n : Nat} (hcheck : b.check l = .ok n)
    {t : Tables} {hook : Hook Indexes StoreErr}
    (h : l.commitBody b n l.tables = .ok (t, hook)) :
    ∃ ms, t.claimMeta.rows = l.tables.claimMeta.rows ++ ms ∧
      List.Forall₂ (ClaimMetaRow.Stores n) ms b.metaWrites := by
  obtain ⟨_, t₀, t₁, hswap, hstored, rfl⟩ := stored_commitBody hcheck h
  obtain ⟨ms, hms, hof⟩ := hstored.rows
  refine ⟨ms, ?_, hof⟩
  rw [(swapHead_ok_iff.mp hswap).2] at hms
  exact hms

end Batch

namespace Ledger

variable {l : Ledger} {b : Batch}

/-- The transaction of the commit goes through; its hook may still raise. -/
def Commits (l : Ledger) (b : Batch) : Prop :=
  ∃ n t hook, b.check l = .ok n ∧ l.commitBody b n l.tables = .ok (t, hook)

/-- A commit whose transaction does not go through raises and leaves the ledger as it was. -/
theorem commitBatch_of_refused (h : ¬l.Commits b) : ∃ e, l.commitBatch b = (l, .error e) := by
  unfold commitBatch
  cases hcheck : b.check l with
  | error e => exact ⟨e, rfl⟩
  | ok n =>
    simp only
    unfold session
    cases hbody : l.commitBody b n l.tables with
    | error e =>
      rw [Session.run_of_error (s := (l.tables, l.indexes)) hbody]
      exact ⟨e, rfl⟩
    | ok r => exact absurd ⟨n, r.1, r.2, hcheck, hbody⟩ h

theorem commitBatch_of_commits {n : Nat} {t : Tables} {hook : Hook Indexes StoreErr}
    (hcheck : b.check l = .ok n) (hbody : l.commitBody b n l.tables = .ok (t, hook)) :
    l.commitBatch b =
      ({ l with tables := t, indexes := (hook l.indexes).1 }, (hook l.indexes).2) := by
  unfold commitBatch
  simp only [hcheck]
  unfold session
  rw [Session.run_of_ok (s := (l.tables, l.indexes)) hbody]

end Ledger

end FactGraph.Store
