import Mathlib.Data.List.Nodup
import Mathlib.Data.List.Perm.Subperm
import Mathlib.Data.List.Range

/-!
# Numbered fresh names

A supply of names `name 0, name 1, …`, all different, and the loop that takes the first one from a
number on that is not among those in use. The loop has no bound; the search below stops after as
many steps as there are names in use, and is the same.
-/

namespace FreshNames

variable {α : Type*} [DecidableEq α] (name : ℕ → α)

/-- The first number from `k` on whose name is not in use, searched for at most `fuel` steps. -/
def search (used : List α) : ℕ → ℕ → ℕ
  | 0, k => k
  | fuel + 1, k => if name k ∈ used then search used fuel (k + 1) else k

/-- The first number from `k` on whose name is not in use. -/
def firstUnused (used : List α) (k : ℕ) : ℕ := search name used used.length k

variable {name}

theorem search_spec {used : List α} {fuel k : ℕ} :
    k ≤ search name used fuel k ∧ (∀ i, k ≤ i → i < search name used fuel k → name i ∈ used) ∧
      (name (search name used fuel k) ∉ used ∨ search name used fuel k = k + fuel) := by
  induction fuel generalizing k with
  | zero =>
    refine ⟨le_refl k, ?_, .inr rfl⟩
    intro i hk hi
    exact absurd hi (Nat.not_lt.mpr hk)
  | succ fuel ih =>
    unfold search
    split
    next hused =>
      obtain ⟨hle, hbelow, hend⟩ := @ih (k + 1)
      refine ⟨Nat.le_of_succ_le hle, ?_, ?_⟩
      · intro i hk hi
        rcases Nat.eq_or_lt_of_le hk with rfl | hk
        · exact hused
        · exact hbelow i hk hi
      · rcases hend with hfree | hfuel
        · exact .inl hfree
        · exact .inr (by omega)
    next hfree =>
      refine ⟨le_refl k, ?_, .inl hfree⟩
      intro i hk hi
      exact absurd hi (Nat.not_lt.mpr hk)

/-- **The name found is not in use.** -/
theorem firstUnused_not_mem (hname : name.Injective) (used : List α) (k : ℕ) :
    name (firstUnused name used k) ∉ used := by
  obtain ⟨hle, hbelow, hend⟩ := @search_spec _ _ name used used.length k
  rcases hend with hfree | hfuel
  · exact hfree
  · intro hused
    -- more names than there is room for
    have hsubset : (List.range' k (used.length + 1)).map name ⊆ used := by
      intro a ha
      obtain ⟨i, hi, rfl⟩ := List.mem_map.mp ha
      rw [List.mem_range'_1] at hi
      by_cases hlt : i < k + used.length
      · exact hbelow i hi.1 (hfuel ▸ hlt)
      · have heq : i = firstUnused name used k := by
          unfold firstUnused
          omega
        rw [heq]
        exact hused
    have hnodup : ((List.range' k (used.length + 1)).map name).Nodup :=
      List.Nodup.map hname List.nodup_range'
    have hlength := (List.subperm_of_subset hnodup hsubset).length_le
    rw [List.length_map, List.length_range'] at hlength
    omega

/-! ## Names that end in a number -/

theorem digits_injective {a b : ℕ} (h : Nat.toDigits 10 a = Nat.toDigits 10 b) : a = b := by
  have hnum := congrArg (fun ds => Nat.ofDigitChars 10 ds 0) h
  simpa [Nat.ofDigitChars_toDigits] using hnum

end FreshNames
