import FactGraph.Db.Effects
import FactGraph.View.Premised

/-!
# Batches

The views of a ledger are told by its claims, in the order in which they were appended, and by the set
of those that were retracted, however the writes were divided into commits (`sameViews_of_batches`).
-/

namespace FactGraph.View

open Store

variable {l l' : Ledger}

/-- A run of commits and of retractions, with the claims it appends and the ids it retracts. -/
inductive BatchRun (l : Ledger) : List Claim → List String → Ledger → Prop
  | nil : BatchRun l [] [] l
  | commit {cs ids l' b} : BatchRun l cs ids l' → (l'.commitBatch b).2 = .ok () →
      BatchRun l (cs ++ b.assertions.map (·.claim))
        (ids ++ b.revocations.map (·.revokes.revokedAsrtId)) (l'.commitBatch b).1
  | retract {cs ids l' a w} : BatchRun l cs ids l' → RevokedBy l' a w →
      BatchRun l cs (ids ++ [a]) (w.run l')

/-- What a run leaves. -/
structure Batched (l l' : Ledger) (cs : List Claim) (ids : List String) : Prop where
  sound : l'.Sound
  claims : l'.indexes.claims = l.indexes.claims ++ cs
  revoked : ∀ a, l'.hasActiveRevocation a = true ↔ l.hasActiveRevocation a = true ∨ a ∈ ids

variable {cs : List Claim} {ids : List String}

theorem Batched.commit (h : Batched l l' cs ids) {b : Batch} (hb : (l'.commitBatch b).2 = .ok ()) :
    Batched l (l'.commitBatch b).1 (cs ++ b.assertions.map (·.claim))
      (ids ++ b.revocations.map (·.revokes.revokedAsrtId)) := by
  have hcommitted := Db.committed_of_commitBatch (Prod.ext rfl hb)
  have hsound := h.sound.step (Batch.step_commitBatch l' b)
  refine ⟨hsound, ?_, ?_⟩
  · rw [hcommitted.claims, h.claims, List.append_assoc]
  · intro a
    rw [hsound.hasActiveRevocation_iff, hcommitted.revokes, List.mem_append, ← or_assoc, ← h.revoked,
      h.sound.hasActiveRevocation_iff]
    simp only [List.mem_append, List.mem_map, or_and_right, exists_or, exists_exists_and_eq_and]

theorem Batched.retract (h : Batched l l' cs ids) {a : String} {w : Write} (hw : RevokedBy l' a w) :
    Batched l (w.run l') cs (ids ++ [a]) := by
  have hone := hw.revoked h.sound
  refine ⟨h.sound.step (w.step l'), hone.claims.trans h.claims, ?_⟩
  intro b
  rw [hone.revoked, Bool.or_eq_true, h.revoked, decide_eq_true_eq, List.mem_append,
    List.mem_singleton, or_comm, or_assoc]

theorem BatchRun.batched (hl : l.Sound) (h : BatchRun l cs ids l') : Batched l l' cs ids := by
  induction h with
  | nil => exact ⟨hl, (List.append_nil _).symm, by simp⟩
  | commit _ hb ih => exact ih.commit hb
  | retract _ hw ih => exact ih.retract hw

/-- **The division into commits does not matter**, nor the order of retractions: runs that append the
same claims and retract the same ones lead to the same views. -/
theorem sameViews_of_batches (hl : l.Reachable) {l'' : Ledger} {ids' : List String}
    (h : BatchRun l cs ids l') (h' : BatchRun l cs ids' l'') (hids : ∀ a, a ∈ ids ↔ a ∈ ids') :
    SameViews (reads l') (reads l'') := by
  have hleft := h.batched hl.sound
  have hright := h'.batched hl.sound
  have hclaims : l'.indexes.claims = l''.indexes.claims := hleft.claims.trans hright.claims.symm
  apply LedgerReads.Alike.sameViews
  refine ⟨?_, ?_, ?_, ?_⟩
  · funext p
    exact congrArg Except.ok (by rw [hleft.sound.findClaims, hright.sound.findClaims, hclaims])
  · funext a
    refine congrArg Except.ok (Bool.eq_iff_iff.mpr ?_)
    rw [hleft.revoked, hright.revoked, hids]
  · funext a
    exact congrArg Except.ok (by rw [hleft.sound.findClaimArgs, hright.sound.findClaimArgs, hclaims])
  · intro p active hactive
    have hsub : active.Sublist l'.indexes.claims := by
      refine (activeClaims_sublist rfl hactive).trans ?_
      rw [hleft.sound.findClaims]
      exact List.filter_sublist
    exact ⟨(sequenced_of_sound hleft.sound).sub hsub,
      (sequenced_of_sound hright.sound).sub (hclaims ▸ hsub)⟩

/-- A commit of an age, which may retract another. -/
def ageCommit (head : Option String) (tx seq : String) (ages : List (String × Int))
    (retracted : List Revokes) : Batch where
  assertions := ages.map fun p => ⟨ageClaim p.1 p.2, [⟨p.1, 0, .int p.2, "int"⟩], [], []⟩
  revocations := retracted.map fun r => ⟨r, [], []⟩
  expectedHeadTxId := head
  headTxId := tx
  metadata := [("head_tx_seq", seq)]

/-- Two ages and the retraction of the first, in one commit and in two. -/
theorem sameViews_of_batches_ages :
    SameViews
      (reads (Ledger.empty.commitBatch
        (ageCommit none "t1" "1" [("a1", 30), ("a2", 31)] [⟨"r1", "a1"⟩])).1)
      (reads (((Ledger.empty.commitBatch (ageCommit none "t1" "1" [("a1", 30)] [])).1.commitBatch
        (ageCommit (some "t1") "t2" "2" [("a2", 31)] [⟨"r1", "a1"⟩])).1)) := by
  have hnil : BatchRun Ledger.empty [] [] Ledger.empty := .nil
  have hboth := hnil.commit (b := ageCommit none "t1" "1" [("a1", 30), ("a2", 31)] [⟨"r1", "a1"⟩])
    (by rfl)
  have hfirst := hnil.commit (b := ageCommit none "t1" "1" [("a1", 30)] []) (by rfl)
  have hsecond := hfirst.commit (b := ageCommit (some "t1") "t2" "2" [("a2", 31)] [⟨"r1", "a1"⟩])
    (by rfl)
  exact sameViews_of_batches ⟨[], [], rfl⟩ hboth hsecond fun _ => Iff.rfl

end FactGraph.View
