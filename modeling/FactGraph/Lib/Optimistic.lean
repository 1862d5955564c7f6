import Mathlib.Order.Basic

/-!
# Optimistic commits

Clients share a store with a **head**. A client observes the head and prepares a change against it; later
it submits the change, which goes through only if the head is still the parent it was prepared
against, and then advances the head. Any number of clients may prepare and submit in any order: a
schedule is a list of such events.

If heads can be ranked so that every change leads to a higher rank than its parent has, then the
head of a store never comes back, and of two changes with one parent at most one goes through
(`Protocol.parent_ne`).
-/

namespace Optimistic

/-- A store with a head, and the changes that can be made to it. -/
structure Protocol (S B H : Type*) where
  head : S → H
  parent : B → H
  next : B → H
  /-- The change may be prepared in this state. -/
  Prepares : S → B → Prop
  /-- The change goes through in this state. -/
  Commits : S → B → Prop
  commit : S → B → S
  head_eq : ∀ {s b}, Commits s b → head s = parent b
  head_commit : ∀ {s b}, Commits s b → head (commit s b) = next b
  refused : ∀ {s b}, ¬Commits s b → commit s b = s

/-- One thing a client does. -/
inductive Event (B : Type*) where
  | prepare (b : B)
  | submit (b : B)

/-- The store, and what was prepared so far. -/
structure Node (S B : Type*) where
  store : S
  prepared : List B

namespace Protocol

variable {S B H : Type*} (p : Protocol S B H)

def step (node : Node S B) : Event B → Node S B
  | .prepare b => { node with prepared := b :: node.prepared }
  | .submit b => { node with store := p.commit node.store b }

/-- The state after a schedule. -/
def run (node : Node S B) (es : List (Event B)) : Node S B := es.foldl p.step node

/-- A change is prepared against the state of the moment, and submitted at any time after. -/
def Enabled (node : Node S B) : Event B → Prop
  | .prepare b => p.Prepares node.store b
  | .submit b => b ∈ node.prepared

/-- Every event of the schedule is enabled when it happens. -/
def Schedule : Node S B → List (Event B) → Prop
  | _, [] => True
  | node, e :: es => p.Enabled node e ∧ Schedule (p.step node e) es

variable {p} {node : Node S B}

theorem run_append (es es' : List (Event B)) :
    p.run node (es ++ es') = p.run (p.run node es) es' := List.foldl_append

theorem schedule_append {es es' : List (Event B)} :
    p.Schedule node (es ++ es') ↔ p.Schedule node es ∧ p.Schedule (p.run node es) es' := by
  induction es generalizing node with
  | nil => simp [Schedule, run]
  | cons e es ih =>
    show p.Enabled node e ∧ p.Schedule (p.step node e) (es ++ es') ↔
      (p.Enabled node e ∧ p.Schedule (p.step node e) es) ∧ _
    rw [ih, and_assoc]
    rfl

/-- **What every enabled event keeps holds along every schedule.** -/
theorem invariant {I : Node S B → Prop}
    (hstep : ∀ node e, I node → p.Enabled node e → I (p.step node e)) {es : List (Event B)}
    (hs : p.Schedule node es) (h : I node) : I (p.run node es) := by
  induction es generalizing node with
  | nil => exact h
  | cons e es ih => exact ih hs.2 (hstep node e h hs.1)

section

variable {R : Type*} [Preorder R] {rank : H → R} {I : Node S B → Prop}
  (hstep : ∀ node e, I node → p.Enabled node e → I (p.step node e))
  (hrank : ∀ node, I node → ∀ b ∈ node.prepared, rank (p.parent b) < rank (p.next b))
include hstep hrank

/-- The head never falls. -/
theorem rank_le_run {es : List (Event B)} (hs : p.Schedule node es) (h : I node) :
    rank (p.head node.store) ≤ rank (p.head (p.run node es).store) := by
  induction es generalizing node with
  | nil => exact le_refl _
  | cons e es ih =>
    refine le_trans ?_ (ih hs.2 (hstep node e h hs.1))
    cases e with
    | prepare b => exact le_refl _
    | submit b =>
      show rank (p.head node.store) ≤ rank (p.head (p.commit node.store b))
      by_cases hb : p.Commits node.store b
      · rw [p.head_commit hb, p.head_eq hb]
        exact (hrank node h b hs.1).le
      · rw [p.refused hb]

/-- **Of two changes with one parent at most one goes through.** -/
theorem parent_ne {b c : B} {before between after : List (Event B)}
    (hs : p.Schedule node (before ++ .submit b :: (between ++ .submit c :: after))) (h : I node)
    (hb : p.Commits (p.run node before).store b)
    (hc : p.Commits (p.run node (before ++ .submit b :: between)).store c) :
    p.parent b ≠ p.parent c := by
  obtain ⟨hbefore, henabled, hrest⟩ := schedule_append.mp hs
  obtain ⟨hbetween, _⟩ := schedule_append.mp hrest
  have hI : I (p.run node before) := invariant hstep hbefore h
  have hrun : p.run node (before ++ .submit b :: between) =
      p.run (p.step (p.run node before) (.submit b)) between := by
    rw [run_append]
    rfl
  rw [hrun] at hc
  have hle := rank_le_run hstep hrank hbetween (hstep _ _ hI henabled)
  intro heq
  have hlt : rank (p.parent b) < rank (p.next b) := hrank _ hI b henabled
  have hnext : rank (p.next b) ≤ rank (p.parent b) := by
    rw [heq, ← p.head_eq hc, ← p.head_commit hb]
    exact hle
  exact lt_irrefl _ (hlt.trans_le hnext)

end

end Protocol

end Optimistic
