import Mathlib.Data.List.Basic
import Mathlib.Order.Lattice

/-!
# Reading a log as of a boundary

The entries of a log have positions in a linear order. To read the log **as of** a boundary is to
look at the entries at or before it: the reading is the last of these, if there is one. What is
appended after the boundary is never looked at (`isLast_congr`), and a scan of the log in the order
of positions ends at the last entry (`getLast?_upTo`).
-/

namespace Log

variable {E P : Type*} [LinearOrder P] (pos : E → P)

/-- The entries at or before a boundary. -/
def upTo (b : P) (log : List E) : List E := log.filter fun e => pos e ≤ b

/-- `e` is the last entry at or before the boundary. -/
structure IsLast (b : P) (log : List E) (e : E) : Prop where
  mem : e ∈ log
  le : pos e ≤ b
  greatest : ∀ f ∈ log, pos f ≤ b → pos f ≤ pos e

variable {pos} {b : P} {log log' : List E} {e f : E}

theorem mem_upTo : e ∈ upTo pos b log ↔ e ∈ log ∧ pos e ≤ b := by
  simp [upTo]

theorem upTo_eq_nil_iff : upTo pos b log = [] ↔ ∀ e ∈ log, b < pos e := by
  simp [upTo]

/-- **Only the entries up to the boundary matter.** -/
theorem isLast_congr (h : ∀ e, pos e ≤ b → (e ∈ log ↔ e ∈ log')) :
    IsLast pos b log e ↔ IsLast pos b log' e := by
  constructor
  · intro he
    exact ⟨(h e he.le).mp he.mem, he.le, fun f hf hle => he.greatest f ((h f hle).mpr hf) hle⟩
  · intro he
    exact ⟨(h e he.le).mpr he.mem, he.le, fun f hf hle => he.greatest f ((h f hle).mp hf) hle⟩

/-- No two entries at one position: there is one last entry. -/
theorem IsLast.unique (h : ∀ e ∈ log, ∀ f ∈ log, pos e = pos f → e = f)
    (he : IsLast pos b log e) (hf : IsLast pos b log f) : e = f :=
  h e he.mem f hf.mem (le_antisymm (hf.greatest e he.mem he.le) (he.greatest f hf.mem hf.le))

/-- A scan in the order of positions ends at a last entry. -/
theorem isLast_of_getLast? (hs : log.Pairwise fun e f => pos e ≤ pos f)
    (h : (upTo pos b log).getLast? = some e) : IsLast pos b log e := by
  obtain ⟨hmem, hle⟩ := mem_upTo.mp (List.mem_of_getLast? h)
  refine ⟨hmem, hle, ?_⟩
  intro f hf hfb
  obtain ⟨init, hinit⟩ := List.getLast?_eq_some_iff.mp h
  have hsorted : (upTo pos b log).Pairwise fun e f => pos e ≤ pos f :=
    hs.sublist List.filter_sublist
  rw [hinit] at hsorted
  have hf' : f ∈ init ++ [e] := hinit ▸ mem_upTo.mpr ⟨hf, hfb⟩
  rcases List.mem_append.mp hf' with hf' | hf'
  · exact (List.pairwise_append.mp hsorted).2.2 f hf' e (by simp)
  · rw [List.mem_singleton.mp hf']

/-- **A scan in the order of positions ends at the last entry.** -/
theorem getLast?_upTo (hs : log.Pairwise fun e f => pos e ≤ pos f)
    (hinj : ∀ e ∈ log, ∀ f ∈ log, pos e = pos f → e = f) (he : IsLast pos b log e) :
    (upTo pos b log).getLast? = some e := by
  cases hlast : (upTo pos b log).getLast? with
  | none =>
    have hnil := List.getLast?_eq_none_iff.mp hlast
    exact absurd (upTo_eq_nil_iff.mp hnil e he.mem) (not_lt.mpr he.le)
  | some f => rw [(isLast_of_getLast? hs hlast).unique hinj he]

end Log
