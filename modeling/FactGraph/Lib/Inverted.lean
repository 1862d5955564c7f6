import Mathlib.Data.List.Lex
import Mathlib.Order.Lattice
import Mathlib.Order.Monotone.Basic

/-!
# Inverted sequences

A program that only has a `max` at hand picks a least sequence by inverting its letters: the words
are mapped through a strictly antitone function and compared lexicographically. This turns the order
around between words that differ at a position (`map_lt_map_iff`), but not between a word and its
extensions: of these the longer is the greater, inverted or not. So the greatest inverted word is the
least one exactly when no other word of the collection extends it (`greatest_map_iff`).
-/

namespace FactGraph.Inverted

variable {A B : Type} [LinearOrder A] [LinearOrder B] {f : A → B}

/-- **Inverting turns the order around, but for extensions.** -/
theorem map_lt_map_iff (hf : StrictAnti f) {xs ys : List A} :
    xs.map f < ys.map f ↔ (xs <+: ys ∧ xs ≠ ys) ∨ (ys < xs ∧ ¬ ys <+: xs) := by
  induction xs generalizing ys with
  | nil =>
    cases ys with
    | nil => simp
    | cons y ys => simp [List.nil_prefix]
  | cons x xs ih =>
    cases ys with
    | nil => simp
    | cons y ys =>
      simp only [List.map_cons, List.cons_lt_cons_iff, List.cons_prefix_cons, ih, hf.lt_iff_gt,
        hf.injective.eq_iff, ne_eq, List.cons.injEq]
      by_cases hxy : x = y
      · subst hxy
        simp
      · simp [hxy, Ne.symm hxy]

/-- **The greatest inverted word of a collection is its least word, unless another word extends
that one.** -/
theorem greatest_map_iff (hf : StrictAnti f) {S : List A → Prop} {m : List A}
    (hleast : ∀ xs, S xs → m ≤ xs) :
    (∀ xs, S xs → xs.map f ≤ m.map f) ↔ ∀ xs, S xs → m <+: xs → xs = m := by
  constructor
  · intro h xs hxs hpre
    by_contra hne
    have hlt : m.map f < xs.map f := (map_lt_map_iff hf).mpr (.inl ⟨hpre, Ne.symm hne⟩)
    exact absurd (h xs hxs) (not_le.mpr hlt)
  · intro h xs hxs
    apply not_lt.mp
    intro hlt
    rcases (map_lt_map_iff hf).mp hlt with ⟨hpre, hne⟩ | ⟨hlt, _⟩
    · exact hne (h xs hxs hpre).symm
    · exact absurd (hleast xs hxs) (not_le.mpr hlt)

end FactGraph.Inverted
