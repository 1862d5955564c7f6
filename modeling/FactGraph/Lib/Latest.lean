import Mathlib.Data.List.MinMax
import Mathlib.Data.List.Nodup

/-!
# The last of every group

A list is read as a history, oldest first, and its elements fall into groups. `lasts` keeps of every
group the element that came last: exactly one (`group_lasts`), the greatest under any measure that
grows along the list (`argmax_of_ascending`), and once that one is gone the one before it
(`group_filter_ne`).
-/

namespace FactGraph.Latest

variable {A K : Type} [DecidableEq K] {key : A → K} {l : List A}

/-! ## Groups -/

/-- The elements of one group. -/
def group (key : A → K) (l : List A) (k : K) : List A := l.filter fun a => key a = k

theorem mem_group {k : K} {a : A} : a ∈ group key l k ↔ a ∈ l ∧ key a = k := by
  simp [group]

theorem group_ne_nil_iff {k : K} : group key l k ≠ [] ↔ ∃ a ∈ l, key a = k := by
  simp [group]

theorem group_sublist (key : A → K) (l : List A) (k : K) : (group key l k).Sublist l :=
  List.filter_sublist

/-! ## Last elements -/

/-- Along a list whose measure grows, the greatest is the last. -/
theorem argmax_of_ascending {N : Type} [LinearOrder N] {f : A → N} :
    ∀ {l : List A}, l.Pairwise (fun a b => f a < f b) → l.argmax f = l.getLast? := by
  intro l h
  cases hlast : l.getLast? with
  | none =>
    rw [List.getLast?_eq_none_iff] at hlast
    simp [hlast]
  | some b =>
    obtain ⟨init, rfl⟩ := List.getLast?_eq_some_iff.mp hlast
    have hlt := (List.pairwise_append.mp h).2.2
    rw [List.argmax_concat]
    cases hmax : init.argmax f with
    | none => rfl
    | some a =>
      have ha : a ∈ init := List.argmax_mem hmax
      simp [hlt a ha b (by simp)]

variable [DecidableEq A]

/-- The last element of every group, in the order of the list. -/
def lasts (key : A → K) (l : List A) : List A :=
  l.filter fun a => (group key l (key a)).getLast? = some a

theorem mem_lasts {a : A} : a ∈ lasts key l ↔ (group key l (key a)).getLast? = some a := by
  unfold lasts
  rw [List.mem_filter, decide_eq_true_eq]
  constructor
  · exact fun h => h.2
  · intro h
    exact ⟨(mem_group.mp (List.mem_of_getLast? h)).1, h⟩

/-- Along a list whose measure grows, the last of a group is its greatest. -/
theorem mem_lasts_iff_of_ascending {N : Type} [LinearOrder N] {f : A → N}
    (h : l.Pairwise fun a b => f a < f b) {a : A} :
    a ∈ lasts key l ↔ a ∈ l ∧ ∀ b ∈ l, key b = key a → f b ≤ f a := by
  have hasc := h.sublist (group_sublist key l (key a))
  rw [mem_lasts, ← argmax_of_ascending hasc]
  constructor
  · intro hmax
    refine ⟨(mem_group.mp (List.argmax_mem hmax)).1, ?_⟩
    intro b hb hkey
    exact List.le_of_mem_argmax (mem_group.mpr ⟨hb, hkey⟩) hmax
  · rintro ⟨ha, hle⟩
    cases hmax : (group key l (key a)).argmax f with
    | none =>
      rw [List.argmax_eq_none] at hmax
      exact absurd (mem_group.mpr ⟨ha, rfl⟩) (hmax ▸ List.not_mem_nil)
    | some b =>
      -- both are greatest, and the measure tells elements apart
      obtain ⟨hb, hkey⟩ := mem_group.mp (List.argmax_mem hmax)
      have hle' : f a ≤ f b := List.le_of_mem_argmax (mem_group.mpr ⟨ha, rfl⟩) hmax
      have heq : f a = f b := le_antisymm hle' (hle b hb hkey)
      have hnodup : (l.map f).Nodup := List.pairwise_map.mpr (h.imp ne_of_lt)
      rw [List.inj_on_of_nodup_map hnodup ha hb heq]

/-- **Every group that has an element has exactly one last one.** -/
theorem group_lasts (h : l.Nodup) (k : K) :
    group key (lasts key l) k = (group key l k).getLast?.toList := by
  have hswap : group key (lasts key l) k =
      (group key l k).filter fun a => (group key l k).getLast? = some a := by
    unfold group lasts
    rw [List.filter_filter, List.filter_filter]
    apply List.filter_congr
    intro a _
    by_cases hk : key a = k
    · subst hk
      exact Bool.and_comm _ _
    · simp [hk]
  rw [hswap]
  cases hlast : (group key l k).getLast? with
  | none =>
    rw [List.getLast?_eq_none_iff] at hlast
    simp [hlast]
  | some b =>
    have hb : b ∈ group key l k := List.mem_of_getLast? hlast
    have hnodup : (group key l k).Nodup := (group_sublist key l k).nodup h
    have heq : ((group key l k).filter fun a => some b = some a) =
        (group key l k).filter fun a => a = b := by
      apply List.filter_congr
      intro a _
      simp [eq_comm]
    rw [heq, List.filter_eq, List.count_eq_one_of_mem hnodup hb]
    rfl

/-- **Taking the last of a group away** leaves the group without it, and every other group as it
was. -/
theorem group_filter_ne (h : l.Nodup) {a : A} (ha : a ∈ lasts key l) (k : K) :
    group key (l.filter (· ≠ a)) k =
      if k = key a then (group key l k).dropLast else group key l k := by
  have hswap : group key (l.filter (· ≠ a)) k = (group key l k).filter (· ≠ a) := by
    unfold group
    rw [List.filter_filter, List.filter_filter]
    apply List.filter_congr
    intro b _
    exact Bool.and_comm _ _
  rw [hswap]
  by_cases hk : k = key a
  · rw [if_pos hk]
    subst hk
    obtain ⟨init, hinit⟩ := List.getLast?_eq_some_iff.mp (mem_lasts.mp ha)
    have hnodup : (init ++ [a]).Nodup := hinit ▸ (group_sublist key l (key a)).nodup h
    have hnot : a ∉ init := by
      intro hmem
      exact (List.nodup_append.mp hnodup).2.2 a hmem a (by simp) rfl
    rw [hinit, List.filter_append, List.dropLast_concat]
    have hall : init.filter (· ≠ a) = init := by
      apply List.filter_eq_self.mpr
      intro b hb
      simpa using fun he : b = a => hnot (he ▸ hb)
    rw [hall]
    simp
  · rw [if_neg hk]
    apply List.filter_eq_self.mpr
    intro b hb
    have hkb : key b = k := (mem_group.mp hb).2
    simpa using fun he : b = a => hk (he ▸ hkb.symm)

/-- Keys that tell the same elements apart have the same last elements. -/
theorem lasts_congr {K' : Type} [DecidableEq K'] {key' : A → K'}
    (h : ∀ a ∈ l, ∀ b ∈ l, key a = key b ↔ key' a = key' b) : lasts key l = lasts key' l := by
  unfold lasts
  apply List.filter_congr
  intro a ha
  have hgroup : group key l (key a) = group key' l (key' a) := by
    unfold group
    apply List.filter_congr
    intro b hb
    rw [decide_eq_decide]
    exact h b hb a ha
  rw [hgroup]

end FactGraph.Latest
