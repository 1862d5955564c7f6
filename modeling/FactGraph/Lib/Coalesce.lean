import Mathlib.Data.List.Perm.Subperm
import Mathlib.Data.List.Count
import Mathlib.Tactic.Common

/-!
# Coalescing writes

A list of events puts values under keys and lets holders of keys go. At the start a key may be held.
Two ways to write the list down are compared. `stepwise` takes one event after the other and writes a
value if nothing holds its key at that point, neither a holder nor a value written before. `batched`
decides beforehand which keys are free, writes the values that are always written, and of the other
values under a free key the first.

The keys the first way writes are among those the second way writes, and `writes_perm_iff` says when
they are the same.
-/

namespace Coalesce

variable {K W I : Type*}

/-- What happens to keys. A value that is put `always` is not coalesced by `batched`. -/
inductive Event (K W I : Type*) where
  | put (key : K) (w : W) (always : Bool)
  | gone (holder : I)

/-- The holders that the events let go. -/
def goneIn (es : List (Event K W I)) : List I :=
  es.filterMap fun
    | .gone holder => some holder
    | .put _ _ _ => none

/-- The values that are put, under their keys. -/
def puts (es : List (Event K W I)) : List (K × W) :=
  es.filterMap fun
    | .put key w _ => some (key, w)
    | .gone _ => none

section

variable [DecidableEq K]

/-- One event after the other; `gone` are the holders let go and `seen` the keys written so far. -/
def stepwise [DecidableEq I] (held : K → List I) (gone : List I) (seen : List K) :
    List (Event K W I) → List (K × W)
  | [] => []
  | .gone holder :: es => stepwise held (holder :: gone) seen es
  | .put key w _ :: es =>
      if key ∉ seen ∧ ∀ i ∈ held key, i ∈ gone then
        (key, w) :: stepwise held gone (key :: seen) es
      else stepwise held gone seen es

/-- All events at once; `seen` are the keys of the values that were coalesced so far. -/
def batched (free : K → Bool) (seen : List K) : List (Event K W I) → List (K × W)
  | [] => []
  | .gone _ :: es => batched free seen es
  | .put key w true :: es => (key, w) :: batched free seen es
  | .put key w false :: es =>
      if free key ∧ key ∉ seen then (key, w) :: batched free (key :: seen) es
      else batched free seen es

/-- How often a value is put under the key to be written always. -/
def alwaysPut (es : List (Event K W I)) (key : K) : Nat :=
  es.countP fun
    | .put k _ always => always && k = key
    | .gone _ => false

/-- Is a value put under the key that may be coalesced? -/
def mayCoalesce (es : List (Event K W I)) (key : K) : Bool :=
  es.any fun
    | .put k _ always => !always && k = key
    | .gone _ => false

/-- How many values `batched` writes under the key. -/
def due (free : K → Bool) (es : List (Event K W I)) (key : K) : Nat :=
  alwaysPut es key + if mayCoalesce es key && free key then 1 else 0

end

/-- A value is put under the key after all its holders are gone. -/
def Opens (held : K → List I) (gone : List I) (es : List (Event K W I)) (key : K) : Prop :=
  ∃ before w always after, es = before ++ .put key w always :: after ∧
    ∀ i ∈ held key, i ∈ gone ∨ i ∈ goneIn before

theorem opens_gone {held : K → List I} {gone : List I} {holder : I} {es : List (Event K W I)}
    {key : K} : Opens held gone (.gone holder :: es) key ↔ Opens held (holder :: gone) es key := by
  constructor
  · rintro ⟨before, w, always, after, heq, hheld⟩
    cases before with
    | nil => cases heq
    | cons e before =>
      obtain ⟨rfl, rfl⟩ := List.cons.inj heq
      refine ⟨before, w, always, after, rfl, ?_⟩
      intro i hi
      rcases hheld i hi with hgone | hgone
      · exact .inl (List.mem_cons_of_mem _ hgone)
      · have hcases : i = holder ∨ i ∈ goneIn before := by simpa [goneIn] using hgone
        rcases hcases with rfl | hgone
        · exact .inl List.mem_cons_self
        · exact .inr hgone
  · rintro ⟨before, w, always, after, rfl, hheld⟩
    refine ⟨.gone holder :: before, w, always, after, rfl, ?_⟩
    intro i hi
    rcases hheld i hi with hgone | hgone
    · rcases List.mem_cons.mp hgone with rfl | hgone
      · exact .inr List.mem_cons_self
      · exact .inl hgone
    · exact .inr (List.mem_cons_of_mem _ hgone)

theorem opens_put {held : K → List I} {gone : List I} {k : K} {w : W} {always : Bool}
    {es : List (Event K W I)} {key : K} : Opens held gone (.put k w always :: es) key ↔
      (k = key ∧ ∀ i ∈ held key, i ∈ gone) ∨ Opens held gone es key := by
  constructor
  · rintro ⟨before, w', always', after, heq, hheld⟩
    cases before with
    | nil =>
      cases heq
      exact .inl ⟨rfl, fun i hi => (hheld i hi).resolve_right List.not_mem_nil⟩
    | cons e before =>
      obtain ⟨rfl, rfl⟩ := List.cons.inj heq
      exact .inr ⟨before, w', always', after, rfl, hheld⟩
  · rintro (⟨rfl, hheld⟩ | ⟨before, w', always', after, rfl, hheld⟩)
    · exact ⟨[], w, always, es, rfl, fun i hi => .inl (hheld i hi)⟩
    · exact ⟨.put k w always :: before, w', always', after, rfl, hheld⟩

section

variable [DecidableEq K] [DecidableEq I] {held : K → List I} {free : K → Bool}

open Classical in
/-- **Step by step, a key is written once**, if a value is put under it after its holders are gone. -/
theorem count_stepwise (key : K) : ∀ (es : List (Event K W I)) (gone : List I) (seen : List K),
    ((stepwise held gone seen es).map Prod.fst).count key =
      if key ∉ seen ∧ Opens held gone es key then 1 else 0 := by
  intro es
  induction es with
  | nil =>
    intro gone seen
    have hnone : ¬Opens held gone ([] : List (Event K W I)) key := by
      rintro ⟨before, w, always, after, heq, _⟩
      simp at heq
    simp [stepwise, hnone]
  | cons e es ih =>
    intro gone seen
    cases e with
    | gone holder =>
      rw [stepwise, ih]
      simp only [opens_gone]
    | put k w always =>
      unfold stepwise
      by_cases hwrite : k ∉ seen ∧ ∀ i ∈ held k, i ∈ gone
      · rw [if_pos hwrite, List.map_cons, List.count_cons, ih]
        by_cases hk : k = key
        · subst hk
          -- the value is written, and none under its key after it
          have hopens : Opens held gone (.put k w always :: es) k :=
            opens_put.mpr (.inl ⟨rfl, hwrite.2⟩)
          have hrest : ¬(k ∉ k :: seen ∧ Opens held gone es k) := fun h => h.1 List.mem_cons_self
          have hnow : k ∉ seen ∧ Opens held gone (.put k w always :: es) k := ⟨hwrite.1, hopens⟩
          simp only [if_neg hrest, if_pos hnow, beq_self_eq_true, if_true]
        · have hsame : (key ∉ k :: seen ∧ Opens held gone es key) ↔
              (key ∉ seen ∧ Opens held gone (.put k w always :: es) key) := by
            rw [opens_put, List.mem_cons, not_or]
            constructor
            · exact fun ⟨⟨_, hseen⟩, hopens⟩ => ⟨hseen, .inr hopens⟩
            · exact fun ⟨hseen, hopens⟩ =>
                ⟨⟨Ne.symm hk, hseen⟩, hopens.resolve_left fun h => hk h.1⟩
          have hkey : ((k, w).1 == key) = false := by simpa using hk
          rw [hkey]
          simp only [hsame, Bool.false_eq_true, if_false, Nat.add_zero]
      · rw [if_neg hwrite, ih]
        -- a key that is held or seen is not written by this value
        have hsame : (key ∉ seen ∧ Opens held gone (.put k w always :: es) key) ↔
            (key ∉ seen ∧ Opens held gone es key) := by
          rw [opens_put]
          constructor
          · rintro ⟨hseen, ⟨rfl, hheld⟩ | hopens⟩
            · exact absurd ⟨hseen, hheld⟩ hwrite
            · exact ⟨hseen, hopens⟩
          · exact fun ⟨hseen, hopens⟩ => ⟨hseen, .inr hopens⟩
        simp only [hsame]

omit [DecidableEq I] in
theorem count_batched (key : K) : ∀ (es : List (Event K W I)) (seen : List K),
    ((batched free seen es).map Prod.fst).count key =
      alwaysPut es key + if mayCoalesce es key && free key && decide (key ∉ seen) then 1 else 0 := by
  intro es
  induction es with
  | nil =>
    intro seen
    simp [batched, alwaysPut, mayCoalesce]
  | cons e es ih =>
    intro seen
    cases e with
    | gone holder =>
      rw [batched, ih]
      simp [alwaysPut, mayCoalesce]
    | put k w always =>
      cases always with
      | true =>
        rw [batched, List.map_cons, List.count_cons, ih]
        by_cases hk : k = key
        · simp [alwaysPut, mayCoalesce, hk]
          omega
        · simp [alwaysPut, mayCoalesce, hk]
      | false =>
        unfold batched
        by_cases hwrite : free k ∧ k ∉ seen
        · rw [if_pos hwrite, List.map_cons, List.count_cons, ih]
          by_cases hk : k = key
          · subst hk
            simp [alwaysPut, mayCoalesce, hwrite.1, hwrite.2]
          · have hmem : decide (key ∉ k :: seen) = decide (key ∉ seen) := by
              simp [Ne.symm hk]
            rw [hmem]
            simp [alwaysPut, mayCoalesce, hk]
        · rw [if_neg hwrite, ih]
          by_cases hk : k = key
          · subst hk
            have hnot : (free k && decide (k ∉ seen)) = false := by
              simpa [Bool.and_eq_false_iff, or_iff_not_imp_left] using hwrite
            simp only [alwaysPut, mayCoalesce, Bool.and_assoc, hnot, Bool.and_false]
            simp
          · simp [alwaysPut, mayCoalesce, hk]

theorem stepwise_sublist : ∀ (es : List (Event K W I)) (gone : List I)
    (seen : List K), (stepwise held gone seen es).Sublist (puts es) := by
  intro es
  induction es with
  | nil => exact fun _ _ => List.Sublist.refl _
  | cons e es ih =>
    intro gone seen
    cases e with
    | gone holder => exact ih (holder :: gone) seen
    | put k w always =>
      unfold stepwise
      split
      · exact (ih gone (k :: seen)).cons_cons (k, w)
      · exact (ih gone seen).cons (k, w)

omit [DecidableEq I] in
theorem batched_sublist : ∀ (es : List (Event K W I)) (seen : List K),
    (batched free seen es).Sublist (puts es) := by
  intro es
  induction es with
  | nil => exact fun _ => List.Sublist.refl _
  | cons e es ih =>
    intro seen
    cases e with
    | gone holder => exact ih seen
    | put k w always =>
      cases always with
      | true => exact (ih seen).cons_cons (k, w)
      | false =>
        unfold batched
        split
        · exact (ih (k :: seen)).cons_cons (k, w)
        · exact (ih seen).cons (k, w)

/-- The keys that have values to be written, each once and after its holders are gone. -/
def Settled (held : K → List I) (free : K → Bool) (es : List (Event K W I)) : Prop :=
  ∀ key, due free es key ≤ 1 ∧ (due free es key = 1 → Opens held [] es key)

omit [DecidableEq I] in
theorem due_pos_of_opens {es : List (Event K W I)}
    (hfree : ∀ key, (∀ i ∈ held key, i ∈ goneIn es) → free key) {key : K}
    (h : Opens held [] es key) : 1 ≤ due free es key := by
  obtain ⟨before, w, always, after, rfl, hheld⟩ := h
  unfold due
  cases always with
  | true =>
    have hpos : 0 < alwaysPut (before ++ .put key w true :: after) key :=
      List.countP_pos_iff.mpr ⟨.put key w true, by simp, by simp⟩
    omega
  | false =>
    have hfreed : free key = true := by
      apply hfree
      intro i hi
      unfold goneIn
      rw [List.filterMap_append]
      exact List.mem_append_left _ ((hheld i hi).resolve_left List.not_mem_nil)
    have hmay : mayCoalesce (before ++ .put key w false :: after) key = true := by
      simp [mayCoalesce]
    rw [hmay, hfreed]
    simp

theorem keys_le (es : List (Event K W I))
    (hfree : ∀ key, (∀ i ∈ held key, i ∈ goneIn es) → free key) (key : K) :
    ((stepwise held [] [] es).map Prod.fst).count key ≤
      ((batched free [] es).map Prod.fst).count key := by
  rw [count_stepwise, count_batched]
  by_cases hopens : Opens held [] es key
  · have hdue := due_pos_of_opens hfree hopens
    unfold due at hdue
    simpa [hopens] using hdue
  · simp [hopens]

theorem keys_perm_iff {es : List (Event K W I)}
    (hfree : ∀ key, (∀ i ∈ held key, i ∈ goneIn es) → free key) :
    ((stepwise held [] [] es).map Prod.fst).Perm ((batched free [] es).map Prod.fst) ↔
      Settled held free es := by
  rw [List.perm_iff_count]
  apply forall_congr'
  intro key
  have hbatched : ((batched free [] es).map Prod.fst).count key = due free es key := by
    rw [count_batched]
    simp [due]
  rw [count_stepwise, hbatched]
  by_cases hopens : Opens held [] es key
  · have hdue := due_pos_of_opens hfree hopens
    simp only [List.not_mem_nil, not_false_eq_true, hopens, if_true, implies_true, and_true]
    omega
  · simp only [List.not_mem_nil, not_false_eq_true, true_and, hopens, if_false, imp_false]
    omega

/-- **When the two ways write the same**: what a value is worth depends on its key only, and of
every key at most one write is due, which comes after the holders of the key are gone. -/
theorem writes_perm_iff {C : Type*} {es : List (Event K W I)}
    (hfree : ∀ key, (∀ i ∈ held key, i ∈ goneIn es) → free key) (content : W → C)
    (hcontent : ∀ p ∈ puts es, ∀ q ∈ puts es, p.1 = q.1 → content p.2 = content q.2) :
    ((stepwise held [] [] es).map fun p => content p.2).Perm
        ((batched free [] es).map fun p => content p.2) ↔ Settled held free es := by
  rw [← keys_perm_iff hfree]
  constructor
  · intro h
    -- the keys of the first are among those of the second, and there are as many
    have hlength := h.length_eq
    simp only [List.length_map] at hlength
    have hsub : ((stepwise held [] [] es).map Prod.fst).Subperm ((batched free [] es).map Prod.fst) :=
      List.subperm_iff_count.mpr fun key => keys_le es hfree key
    exact hsub.perm_of_length_le (by simp [hlength])
  · intro h
    classical
    -- what the values under a key are worth
    let worth : K → Option C := fun key =>
      ((puts es).find? fun p => p.1 = key).map fun p => content p.2
    have hworth : ∀ p ∈ puts es, worth p.1 = some (content p.2) := by
      intro p hp
      cases hfind : (puts es).find? fun q => q.1 = p.1 with
      | none => exact absurd (List.find?_eq_none.mp hfind p hp) (by simp)
      | some q =>
        have hkey : q.1 = p.1 := by simpa using List.find?_some hfind
        simp only [worth, hfind, Option.map_some,
          hcontent q (List.mem_of_find?_eq_some hfind) p hp hkey]
    have hmap : ∀ l : List (K × W), l.Sublist (puts es) →
        (l.map fun p => content p.2).map some = (l.map Prod.fst).map worth := by
      intro l hl
      rw [List.map_map, List.map_map]
      apply List.map_congr_left
      intro p hp
      exact (hworth p (hl.subset hp)).symm
    have hsome := h.map worth
    rw [← hmap _ (stepwise_sublist es [] []), ← hmap _ (batched_sublist es [])] at hsome
    exact (List.map_perm_map_iff (fun _ _ h => Option.some.inj h)).mp hsome

end

end Coalesce
