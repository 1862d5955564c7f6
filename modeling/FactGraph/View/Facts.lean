import FactGraph.View.Entities

/-!
# The facts of a projection

What a row of `project_view_facts` looks like. The row of a claim is its entity and the cells of its
terms, and an existence row is a reference; a cell is never `None`.
-/

namespace FactGraph.View

open Protocol Store Check

/-! ## The argument rows of a claim -/

/-- The argument rows of a claim stand at their positions. -/
theorem claimArgsFrom_idx {terms : List Term} {start : Nat} {rows : List ArgRow}
    (h : claimArgsFrom start terms = .ok rows) (i : Nat) (row : ArgRow) (hrow : rows[i]? = some row) :
    row.idx = start + i := by
  induction terms generalizing start rows i with
  | nil =>
    cases h
    simp at hrow
  | cons term terms ih =>
    obtain ⟨tag, value⟩ := term
    unfold claimArgsFrom at h
    obtain ⟨atom, _, h⟩ := bind_ok_iff.mp h
    obtain ⟨more, hmore, h⟩ := bind_ok_iff.mp h
    cases h
    cases i with
    | zero =>
      simp only [List.getElem?_cons_zero, Option.some.injEq] at hrow
      subst hrow
      rfl
    | succ i =>
      rw [List.getElem?_cons_succ] at hrow
      rw [ih hmore i hrow]
      omega

theorem argsOf_idx {c : Claim} {i : Nat} {row : ClaimArg} (h : (argsOf c)[i]? = some row) :
    row.idx = i := by
  unfold argsOf at h
  cases hc : claimArgsFromRestTerms c.restTerms with
  | error e => simp [hc] at h
  | ok rows =>
    simp only [hc, Indexes.argRows, List.getElem?_map, Option.map_eq_some_iff] at h
    obtain ⟨r, hr, rfl⟩ := h
    have hidx := claimArgsFrom_idx hc i r hr
    simpa using hidx

/-- The argument rows of a claim are in the order of their positions. -/
theorem map_idx_argsOf (c : Claim) : (argsOf c).map (·.idx) = List.range (argsOf c).length := by
  apply List.ext_getElem
  · simp
  · intro i hi _
    have hlt : i < (argsOf c).length := by simpa using hi
    simp [argsOf_idx (List.getElem?_eq_getElem hlt)]

theorem sortArgs_argsOf (c : Claim) : sortArgs (argsOf c) = argsOf c := by
  unfold sortArgs
  apply List.Pairwise.insertionSort_eq
  have h : ((argsOf c).map (·.idx)).Pairwise (· ≤ ·) := by
    rw [map_idx_argsOf]
    exact List.pairwise_le_range
  exact List.pairwise_map.mp h

end FactGraph.View
