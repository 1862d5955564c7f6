import Mathlib.Algebra.Order.BigOperators.Group.List
import Mathlib.Algebra.Order.Ring.Nat
import Mathlib.Order.Lattice

/-!
# Saturating arithmetic

Sums and products of natural numbers that stop at one past a limit. A fold of saturating products is
the product, cut off once (`foldl_mul_eq`), and the same goes for sums: so where the result is within
the limit, nothing has been cut off, and a result never decreases when factors grow or are added.
-/

namespace Saturating

/-- One past the limit, at most. -/
def cut (limit n : Nat) : Nat := min (limit + 1) n

/-- A sum that stops at one past the limit. -/
def add (limit left right : Nat) : Nat := min (limit + 1) (left + right)

/-- A product that stops at one past the limit, without computing one beyond. -/
def mul (limit left right : Nat) : Nat :=
  if left = 0 ∨ right = 0 then 0
  else if limit / right < left then limit + 1
  else min (limit + 1) (left * right)

section

variable {limit : Nat}

theorem add_eq (left right : Nat) : add limit left right = cut limit (left + right) := rfl

theorem mul_eq (left right : Nat) : mul limit left right = cut limit (left * right) := by
  unfold mul cut
  split
  · rename_i hzero
    rcases hzero with rfl | rfl <;> simp
  · rename_i hpos
    split
    · rename_i hlarge
      have hright : 0 < right := by omega
      rw [Nat.div_lt_iff_lt_mul hright] at hlarge
      omega
    · rfl

theorem cut_mono {m n : Nat} (h : m ≤ n) : cut limit m ≤ cut limit n := min_le_min_left _ h

theorem cut_of_le {n : Nat} (h : cut limit n ≤ limit) : cut limit n = n := by
  unfold cut at h ⊢
  omega

theorem one_le_cut {n : Nat} (h : 1 ≤ n) : 1 ≤ cut limit n := by
  unfold cut
  omega

theorem cut_add_cut (m n : Nat) : cut limit (cut limit m + n) = cut limit (m + n) := by
  unfold cut
  omega

theorem cut_cut_mul {m n : Nat} (hn : 1 ≤ n) : cut limit (cut limit m * n) = cut limit (m * n) := by
  rcases Nat.lt_or_ge limit m with hlarge | hsmall
  · have hcut : cut limit m = limit + 1 := min_eq_left hlarge
    have hleft : limit + 1 ≤ (limit + 1) * n := Nat.le_mul_of_pos_right _ hn
    have hright : limit + 1 ≤ m * n := le_trans hlarge (Nat.le_mul_of_pos_right _ hn)
    rw [hcut]
    unfold cut
    rw [min_eq_left hleft, min_eq_left hright]
  · have hcut : cut limit m = m := min_eq_right (by omega)
    rw [hcut]

variable (limit) in
/-- **A fold of saturating products of positive factors is their product, cut off once.** -/
theorem foldl_mul_eq {factors : List Nat} (h : ∀ f ∈ factors, 1 ≤ f) (start : Nat) :
    factors.foldl (mul limit) (cut limit start) = cut limit (start * factors.prod) := by
  induction factors generalizing start with
  | nil => simp
  | cons f factors ih =>
    rw [List.forall_mem_cons] at h
    rw [List.foldl_cons, mul_eq, cut_cut_mul h.1, ih h.2, List.prod_cons, mul_assoc]

variable (limit) in
/-- A fold of saturating sums is the sum, cut off once. -/
theorem foldl_add_eq (terms : List Nat) (start : Nat) :
    terms.foldl (add limit) (cut limit start) = cut limit (start + terms.sum) := by
  induction terms generalizing start with
  | nil => simp
  | cons n terms ih =>
    rw [List.foldl_cons, add_eq, cut_add_cut, ih, List.sum_cons, Nat.add_assoc]

end

/-- A factor of a product of positive factors is no more than the product. -/
theorem le_prod_of_mem {fs : List Nat} (hpos : ∀ f ∈ fs, 1 ≤ f) {f : Nat} (hf : f ∈ fs) :
    f ≤ fs.prod := by
  have hsub : [f].prod ≤ fs.prod :=
    (List.singleton_sublist.mpr hf).prod_le_prod' hpos
  rwa [List.prod_singleton] at hsub

end Saturating
