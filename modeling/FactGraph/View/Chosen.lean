import FactGraph.Store.Runs
import FactGraph.View.Selection

/-!
# The chosen claims of a ledger

What the policies answer on a ledger that a run of public writes leads to. The active claims of a
predicate are its unrevoked claims in the order of their insertion (`activeClaims_of_sound`), and
their insertion sequences grow along that list (`sequenced_of_sound`), so the chosen claim of a group
is the last active one. A revocation takes its target away and leaves everything else a policy reads
as it was (`Revokes`).
-/

namespace FactGraph.View

open Protocol Store Check Latest

/-- The unrevoked claims of a predicate, in the order of their insertion. -/
def activeOf (l : Ledger) (predId : String) : List Claim :=
  l.indexes.claims.filter fun c => c.predId = predId && !l.hasActiveRevocation c.asrtId

theorem mem_activeOf {l : Ledger} {predId : String} {c : Claim} :
    c ∈ activeOf l predId ↔
      c ∈ l.indexes.claims ∧ c.predId = predId ∧ l.hasActiveRevocation c.asrtId = false := by
  simp [activeOf]

variable {l : Ledger}

theorem activeClaims_of_sound (hl : l.Sound) (predId : String) :
    activeClaims (reads l) predId = .ok (activeOf l predId) := by
  have hfind : (reads l).findClaims predId =
      .ok (l.indexes.claims.filter fun c => c.predId = predId) :=
    congrArg Except.ok (hl.findClaims predId)
  have hactive : ∀ c ∈ l.indexes.claims.filter fun c => c.predId = predId,
      isActive (reads l) c.asrtId = .ok (!l.hasActiveRevocation c.asrtId) := by
    intro c hc
    unfold isActive
    rw [if_neg (hl.storable c (List.mem_of_mem_filter hc)).asrtId_ne_empty]
    rfl
  unfold activeClaims
  rw [hfind]
  simp only [ok_bind]
  rw [filterOk_of_total hactive, List.filter_filter]
  unfold activeOf
  congr 1
  apply List.filter_congr
  intro c _
  exact Bool.and_comm _ _

/-! ## Insertion sequences -/

/-- The sequence of a row is found under its id. -/
theorem sequence?_of_mem {t : ClaimsTable} {row : ClaimRow} (h : row ∈ t.rows) :
    t.sequence? row.asrtId = some row.seq := by
  unfold ClaimsTable.sequence?
  cases hfind : t.rows.find? fun r => r.asrtId = row.asrtId with
  | none => exact absurd (List.find?_eq_none.mp hfind row h) (by simp)
  | some r =>
    have hid : r.asrtId = row.asrtId := by simpa using List.find?_some hfind
    have heq : r = row :=
      List.inj_on_of_nodup_map t.unique (List.mem_of_find?_eq_some hfind) h hid
    rw [heq]
    rfl

/-- **Insertion sequences grow along the claims of a ledger.** -/
theorem sequenced_of_sound (hl : l.Sound) : (reads l).Sequenced l.indexes.claims := by
  obtain ⟨rows, hsub, hrows⟩ := List.sublist_map_iff.mp hl.claims
  have hmem : rows.Sublist l.tables.claims.rows := hsub.trans List.filter_sublist
  -- the claims in memory are these rows, so their sequences are the rows' sequences
  have hids : l.indexes.claims.map (·.asrtId) = rows.map (·.asrtId) := by
    have h := congrArg (List.map Prod.fst) hrows
    simpa [List.map_map, Function.comp_def, Claim.signature, ClaimRow.signature] using h
  have hlookup : l.indexes.claims.map (fun c => l.tables.claims.sequence? c.asrtId) =
      rows.map fun r => some r.seq := by
    have h := congrArg (List.map l.tables.claims.sequence?) hids
    rw [List.map_map, List.map_map] at h
    refine h.trans (List.map_congr_left ?_)
    intro r hr
    exact sequence?_of_mem (hmem.subset hr)
  have hsome : ∀ c ∈ l.indexes.claims, ∃ n, l.tables.claims.sequence? c.asrtId = some n := by
    intro c hc
    have h : l.tables.claims.sequence? c.asrtId ∈ rows.map fun r => some r.seq :=
      hlookup ▸ List.mem_map.mpr ⟨c, hc, rfl⟩
    obtain ⟨r, _, hr⟩ := List.mem_map.mp h
    exact ⟨r.seq, hr.symm⟩
  have hread : ∀ c ∈ l.indexes.claims,
      (reads l).claimSequence c.asrtId = .ok (l.tables.claims.sequence? c.asrtId) := by
    intro c hc
    simp only [reads, Ledger.claimSequence]
    rw [if_neg (hl.storable c hc).asrtId_ne_empty]
  have hseq : ∀ c ∈ l.indexes.claims,
      l.tables.claims.sequence? c.asrtId = some ((reads l).seq c) := by
    intro c hc
    obtain ⟨n, hn⟩ := hsome c hc
    unfold LedgerReads.seq
    rw [hread c hc, hn]
  refine ⟨fun c hc => by rw [hread c hc, hseq c hc], ?_⟩
  have hnumbers : l.indexes.claims.map (reads l).seq = rows.map (·.seq) := by
    have h : (l.indexes.claims.map (reads l).seq).map some = (rows.map (·.seq)).map some := by
      rw [List.map_map, List.map_map]
      refine Eq.trans (List.map_congr_left ?_) hlookup
      intro c hc
      exact (hseq c hc).symm
    exact List.map_injective_iff.mpr (Option.some_injective _) h
  have hasc : (rows.map (·.seq)).Pairwise (· < ·) :=
    List.pairwise_map.mpr (l.tables.claims.ascending.sublist hmem)
  rw [← hnumbers] at hasc
  exact List.pairwise_map.mp hasc

theorem sequenced_activeOf (hl : l.Sound) (predId : String) :
    (reads l).Sequenced (activeOf l predId) :=
  (sequenced_of_sound hl).sub List.filter_sublist

/-! ## Revocations -/

/-- The claims are those of before, and one more of them is revoked. -/
structure Revoked (l l' : Ledger) (asrtId : String) : Prop where
  claims : l'.indexes.claims = l.indexes.claims
  revoked : ∀ a, l'.hasActiveRevocation a = (decide (a = asrtId) || l.hasActiveRevocation a)

variable {l' : Ledger}

theorem revoked_of_extends (hl : l.Sound) (hl' : l'.Sound) {n : Nat} {cs : List Claim} {d : Delta}
    (row : Revokes) (h : l.Extends l' n cs d) (hclaims : d.claims = [])
    (hrevokes : d.revokes = [row]) : Revoked l l' row.revokedAsrtId := by
  refine ⟨by rw [h.indexes.claims, hclaims, List.append_nil], ?_⟩
  intro a
  have hiff : a ∈ l'.indexes.revokedAsrtIds ↔
      a = row.revokedAsrtId ∨ a ∈ l.indexes.revokedAsrtIds := by
    rw [hl'.coherent.revoked, hl.coherent.revoked, h.indexes.revokes, hrevokes]
    simp only [List.mem_append, List.mem_singleton]
    constructor
    · rintro ⟨r, hr | rfl, rfl⟩
      · exact .inr ⟨r, hr, rfl⟩
      · exact .inl rfl
    · rintro (rfl | ⟨r, hr, rfl⟩)
      · exact ⟨row, .inr rfl, rfl⟩
      · exact ⟨r, .inl hr, rfl⟩
  unfold Ledger.hasActiveRevocation
  rw [← Bool.decide_or, decide_eq_decide]
  exact hiff

/-- `append_revocation` that writes revokes its target, and only it. -/
theorem revoked_appendRevocation (hl : l.Sound) {a : Ledger.RevocationArgs} {id : String}
    (h : l.appendRevocation a = (l', .ok ⟨id, true⟩)) :
    Revoked l l' a.revokes.revokedAsrtId := by
  have hl' : l'.Sound := by
    have hstep := hl.step (l.step_appendRevocation a)
    rwa [h] at hstep
  obtain ⟨rows, hcheck, _, rfl, hsession⟩ := Ledger.appendRevocation_written h
  obtain ⟨cs, hext⟩ := Ledger.extends_session
    (fun t hook hb => (Ledger.writes_revocationBody (Ledger.checkRevocation_ids hcheck) hb).imp
      fun _ h => h.1) hsession
  exact revoked_of_extends hl hl'
    ⟨Ledger.effectiveId a.revokerAsrtId a.revokes.revokerAsrtId a.newId, a.revokes.revokedAsrtId⟩
    hext rfl rfl

/-- `append_revokes` that returns revokes its target, and only it. -/
theorem revoked_appendRevokes (hl : l.Sound) {row : Revokes}
    (h : l.appendRevokes row = (l', .ok ())) : Revoked l l' row.revokedAsrtId := by
  have hl' : l'.Sound := by
    have hstep := hl.step (l.step_appendRevokes row)
    rwa [h] at hstep
  unfold Ledger.appendRevokes at h
  cases hcheck : validateRevokesRow row with
  | error e => simp [hcheck] at h
  | ok u =>
    simp only [hcheck] at h
    obtain ⟨cs, hext⟩ := Ledger.extends_session
      (fun t hook hb => (Ledger.writes_revokesBody hb).imp fun _ h => h.1) h
    exact revoked_of_extends hl hl' row hext rfl rfl

/-- A commit of one revocation and of metadata revokes its target, and only it. -/
theorem revoked_commitBatch (hl : l.Sound) {b : Batch} {item : LedgerRevocationWrite}
    (hassertions : b.assertions = []) (hrevocations : b.revocations = [item])
    (h : l.commitBatch b = (l', .ok ())) : Revoked l l' item.revokes.revokedAsrtId := by
  have hl' : l'.Sound := by
    have hstep := hl.step (Batch.step_commitBatch l b)
    rwa [h] at hstep
  unfold Ledger.commitBatch at h
  cases hcheck : b.check l with
  | error e => simp [hcheck] at h
  | ok n =>
    simp only [hcheck] at h
    obtain ⟨cs, hext⟩ := Ledger.extends_session (fun t hook hb => by
      obtain ⟨cs, hw⟩ := Batch.writes_commitBody hcheck hb
      exact ⟨_, hw⟩) h
    have hclaims : (b.delta l n).claims = [] := by
      simp [Batch.delta, Batch.restDelta, Delta.append, Batch.assertionsDelta_claims,
        Batch.revocationsDelta_claims, Batch.mergedAssertions_claims, hassertions,
        l.appendsDelta_claims]
    have hrevokes : (b.delta l n).revokes = [item.revokes] := by
      simp [Batch.delta, Delta.append, Batch.assertionsDelta_claims, Batch.restDelta_revokes,
        hrevocations]
    exact revoked_of_extends hl hl' item.revokes hext hclaims hrevokes

/-- The writes that revoke one claim, and write no other. -/
inductive RevokedBy (l : Ledger) (asrtId : String) : Write → Prop
  | revocation {a : Ledger.RevocationArgs} {id : String}
      (h : (l.appendRevocation a).2 = .ok ⟨id, true⟩) (hid : a.revokes.revokedAsrtId = asrtId) :
      RevokedBy l asrtId (.revocation a)
  | revokes {row : Revokes} (h : (l.appendRevokes row).2 = .ok ())
      (hid : row.revokedAsrtId = asrtId) : RevokedBy l asrtId (.revokes row)
  | commit {b : Batch} {item : LedgerRevocationWrite} (h : (l.commitBatch b).2 = .ok ())
      (hassertions : b.assertions = []) (hrevocations : b.revocations = [item])
      (hid : item.revokes.revokedAsrtId = asrtId) : RevokedBy l asrtId (.commit b)

theorem RevokedBy.revoked (hl : l.Sound) {asrtId : String} {w : Write}
    (h : RevokedBy l asrtId w) : Revoked l (w.run l) asrtId := by
  cases h with
  | revocation h hid => exact hid ▸ revoked_appendRevocation hl (Prod.ext rfl h)
  | revokes h hid => exact hid ▸ revoked_appendRevokes hl (Prod.ext rfl h)
  | commit h hassertions hrevocations hid =>
    exact hid ▸ revoked_commitBatch hl hassertions hrevocations (Prod.ext rfl h)

/-- A revocation takes its target out of the active claims. -/
theorem Revoked.activeOf {asrtId : String} (h : Revoked l l' asrtId) (predId : String) :
    activeOf l' predId = (activeOf l predId).filter fun c => c.asrtId ≠ asrtId := by
  unfold View.activeOf
  rw [h.claims, List.filter_filter]
  apply List.filter_congr
  intro c _
  rw [h.revoked]
  by_cases hc : c.asrtId = asrtId <;> simp [hc]

/-- Group keys do not depend on revocations. -/
theorem Revoked.groupKey {asrtId : String} (h : Revoked l l' asrtId) (hl : l.Sound)
    (hl' : l'.Sound) (pred : SchemaPred) (c : Claim) :
    groupKeyForClaim (reads l') pred c = groupKeyForClaim (reads l) pred c := by
  have hargs : l'.findClaimArgs c.asrtId = l.findClaimArgs c.asrtId := by
    rw [hl'.findClaimArgs, hl.findClaimArgs, h.claims]
  unfold groupKeyForClaim valAtomsForClaim
  simp only [reads, hargs]

/-- **Revoking the chosen claim exposes the one before it.** -/
theorem Revoked.chosen {c : Claim} (h : Revoked l l' c.asrtId) (hl : l.Sound) {predId : String}
    {key : Claim → GroupKey} (hc : c ∈ lasts key (View.activeOf l predId)) (k : GroupKey) :
    group key (lasts key (View.activeOf l' predId)) k =
      (if k = key c then (group key (View.activeOf l predId) k).dropLast
        else group key (View.activeOf l predId) k).getLast?.toList := by
  have hseq := sequenced_activeOf hl predId
  have hmem : c ∈ View.activeOf l predId := List.mem_of_mem_filter hc
  have hne : View.activeOf l' predId = (View.activeOf l predId).filter (· ≠ c) := by
    rw [h.activeOf]
    apply List.filter_congr
    intro d hd
    rw [decide_eq_decide]
    exact not_congr ⟨fun hid => hseq.inj hd hmem hid, fun he => he ▸ rfl⟩
  rw [hne, group_lasts (hseq.nodup.filter _), group_filter_ne hseq.nodup hc]

end FactGraph.View
