import Mathlib.Data.List.Sort
import FactGraph.Lib.Dict

/-!
# The best of every key

A list is read once, and of every key the best element so far is kept; at the end the elements that
were kept are listed by key. What is better is a comparison that a rank explains. The list that comes
out has one element for every key (`pairwise_outputs`, `exists_mem_outputs`), of least rank among the
elements of the key (`le_of_mem_outputs`), and is the same for every order of the elements if elements
of one key and rank are equal (`outputs_perm`).
-/

namespace FactGraph.BestPerKey

variable {A K : Type} [LinearOrder K] (key : A → K) (better : A → A → Bool)

/-- What is kept after one more element. -/
def keep (kept : List (K × A)) (a : A) : List (K × A) :=
  match Dict.get? kept (key a) with
  | none => Dict.set kept (key a) a
  | some existing => if better a existing then Dict.set kept (key a) a else kept

/-- What is kept of a list. -/
def unique (l : List A) : List (K × A) := l.foldl (keep key better) []

/-- The elements that were kept, by key. -/
def outputs (l : List A) : List A :=
  ((unique key better l).map Prod.snd).insertionSort fun a b => key a ≤ key b

variable {key better} {R : Type} [LinearOrder R] {rank : A → R}

/-- What is kept of the elements seen: of every key one of the least rank. -/
structure Best (key : A → K) (rank : A → R) (seen : List A) (kept : List (K × A)) : Prop where
  nodup : (Dict.keys kept).Nodup
  sound : ∀ k a, Dict.get? kept k = some a → a ∈ seen ∧ key a = k ∧
    ∀ b ∈ seen, key b = k → rank a ≤ rank b
  complete : ∀ b ∈ seen, ∃ a, Dict.get? kept (key b) = some a

theorem Best.nil : Best key rank [] [] where
  nodup := List.nodup_nil
  sound := fun _ _ h => nomatch h
  complete := fun _ h => nomatch h

/-- A new element that takes its key. -/
theorem Best.set {seen : List A} {kept : List (K × A)} (h : Best key rank seen kept) {a : A}
    (hbest : ∀ b ∈ seen, key b = key a → rank a ≤ rank b) :
    Best key rank (seen ++ [a]) (Dict.set kept (key a) a) where
  nodup := Dict.nodup_keys_set h.nodup _ _
  sound := by
    intro k b hb
    rw [Dict.get?_set] at hb
    split at hb
    · rename_i hk
      cases hb
      refine ⟨by simp, hk.symm, ?_⟩
      intro c hc hck
      rcases List.mem_append.mp hc with hc | hc
      · exact hbest c hc (hck.trans hk)
      · rw [List.mem_singleton.mp hc]
    · rename_i hk
      obtain ⟨hmem, hkey, hle⟩ := h.sound k b hb
      refine ⟨List.mem_append_left _ hmem, hkey, ?_⟩
      intro c hc hck
      rcases List.mem_append.mp hc with hc | hc
      · exact hle c hc hck
      · rw [List.mem_singleton.mp hc] at hck
        exact absurd hck.symm hk
  complete := by
    intro b hb
    rw [Dict.get?_set]
    split
    · exact ⟨a, rfl⟩
    · rename_i hk
      rcases List.mem_append.mp hb with hb | hb
      · exact h.complete b hb
      · rw [List.mem_singleton.mp hb] at hk
        exact absurd rfl hk

/-- A new element that does not beat the one of its key. -/
theorem Best.skip {seen : List A} {kept : List (K × A)} (h : Best key rank seen kept) {a c : A}
    (hc : Dict.get? kept (key a) = some c) (hle : rank c ≤ rank a) :
    Best key rank (seen ++ [a]) kept where
  nodup := h.nodup
  sound := by
    intro k b hb
    obtain ⟨hmem, hkey, hbest⟩ := h.sound k b hb
    refine ⟨List.mem_append_left _ hmem, hkey, ?_⟩
    intro d hd hdk
    rcases List.mem_append.mp hd with hd | hd
    · exact hbest d hd hdk
    · rw [List.mem_singleton.mp hd] at hdk ⊢
      subst hdk
      rw [hb] at hc
      cases hc
      exact hle
  complete := by
    intro b hb
    rcases List.mem_append.mp hb with hb | hb
    · exact h.complete b hb
    · rw [List.mem_singleton.mp hb]
      exact ⟨c, hc⟩

/-- One element. -/
theorem Best.keep (hbetter : ∀ a b, better a b = true ↔ rank a < rank b) {seen : List A}
    {kept : List (K × A)} (h : Best key rank seen kept) (a : A) :
    Best key rank (seen ++ [a]) (keep key better kept a) := by
  unfold BestPerKey.keep
  cases hold : Dict.get? kept (key a) with
  | none =>
    refine h.set fun b hb hkey => ?_
    obtain ⟨c, hc⟩ := h.complete b hb
    rw [hkey, hold] at hc
    cases hc
  | some existing =>
    obtain ⟨-, -, hle⟩ := h.sound _ _ hold
    by_cases hlt : better a existing = true
    · simp only [hlt, if_true]
      exact h.set fun b hb hkey => ((hbetter a existing).mp hlt).le.trans (hle b hb hkey)
    · simp only [hlt]
      exact h.skip hold (not_lt.mp fun h => hlt ((hbetter a existing).mpr h))

/-- A whole list. -/
theorem best_unique (hbetter : ∀ a b, better a b = true ↔ rank a < rank b) (l : List A) :
    Best key rank l (unique key better l) := by
  have hrun : ∀ (l seen : List A) (kept : List (K × A)), Best key rank seen kept →
      Best key rank (seen ++ l) (l.foldl (BestPerKey.keep key better) kept) := by
    intro l
    induction l with
    | nil =>
      intro seen kept h
      simpa using h
    | cons a l ih =>
      intro seen kept h
      have hstep := ih (seen ++ [a]) _ (h.keep hbetter a)
      rwa [List.append_assoc, List.singleton_append] at hstep
  exact hrun l [] [] Best.nil

variable (hbetter : ∀ a b, better a b = true ↔ rank a < rank b)

include hbetter

theorem mem_outputs {l : List A} {a : A} :
    a ∈ outputs key better l ↔ Dict.get? (unique key better l) (key a) = some a := by
  have hbest := @best_unique A K _ key better R _ rank hbetter l
  unfold outputs
  rw [List.mem_insertionSort, List.mem_map]
  constructor
  · intro h
    obtain ⟨p, hp, rfl⟩ := h
    have hget := (Dict.get?_eq_some_iff hbest.nodup).mpr hp
    rwa [(hbest.sound _ _ hget).2.1]
  · intro h
    exact ⟨(key a, a), Dict.mem_of_get? h, rfl⟩

/-- What comes out went in. -/
theorem mem_of_mem_outputs {l : List A} {a : A} (h : a ∈ outputs key better l) : a ∈ l :=
  ((best_unique hbetter l).sound _ _ ((mem_outputs hbetter).mp h)).1

/-- What comes out is of the least rank among the elements of its key. -/
theorem le_of_mem_outputs {l : List A} {a b : A} (h : a ∈ outputs key better l) (hb : b ∈ l)
    (hkey : key b = key a) : rank a ≤ rank b :=
  ((best_unique hbetter l).sound _ _ ((mem_outputs hbetter).mp h)).2.2 b hb hkey

/-- Every key has an element. -/
theorem exists_mem_outputs {l : List A} {b : A} (h : b ∈ l) :
    ∃ a ∈ outputs key better l, key a = key b := by
  have hbest := @best_unique A K _ key better R _ rank hbetter l
  obtain ⟨a, ha⟩ := hbest.complete b h
  have hkey := (hbest.sound _ _ ha).2.1
  refine ⟨a, (mem_outputs hbetter).mpr ?_, hkey⟩
  rwa [hkey]

/-- No key has two: they ascend. -/
theorem pairwise_outputs (l : List A) :
    (outputs key better l).Pairwise fun a b => key a < key b := by
  have hbest := @best_unique A K _ key better R _ rank hbetter l
  have hkeys : ((outputs key better l).map key).Nodup := by
    have hperm := (List.perm_insertionSort (fun a b => key a ≤ key b)
      ((unique key better l).map Prod.snd)).map key
    refine hperm.nodup_iff.mpr ?_
    have hcols : ((unique key better l).map Prod.snd).map key = Dict.keys (unique key better l) := by
      rw [List.map_map]
      refine List.map_congr_left fun p hp => ?_
      exact (hbest.sound _ _ ((Dict.get?_eq_some_iff hbest.nodup).mpr hp)).2.1
    rw [hcols]
    exact hbest.nodup
  have hsorted : (outputs key better l).Pairwise fun a b => key a ≤ key b := by
    have htotal : Std.Total fun a b : A => key a ≤ key b := ⟨fun a b => le_total _ _⟩
    have htrans : IsTrans A fun a b => key a ≤ key b := ⟨fun _ _ _ => le_trans⟩
    exact List.pairwise_insertionSort _ _
  refine (hsorted.and (List.pairwise_map.mp hkeys)).imp fun h => ?_
  exact lt_of_le_of_ne h.1 h.2

/-- The order of the elements does not count if nothing is lost between equals. -/
theorem outputs_perm {l m : List A} (h : l.Perm m)
    (huniq : ∀ a ∈ l, ∀ b ∈ l, key a = key b → rank a = rank b → a = b) :
    outputs key better l = outputs key better m := by
  have hirrefl : Std.Irrefl fun a b : A => key a < key b := ⟨fun a => lt_irrefl _⟩
  have hasymm : Std.Antisymm fun a b : A => key a < key b := ⟨fun a b hab hba => absurd hba hab.asymm⟩
  refine (pairwise_outputs hbetter l).eq_of_mem_iff (pairwise_outputs hbetter m) fun a => ?_
  constructor
  · intro ha
    have hal := mem_of_mem_outputs hbetter ha
    have hother : ∃ b ∈ outputs key better m, key b = key a :=
      exists_mem_outputs hbetter (h.subset hal)
    obtain ⟨b, hb, hkey⟩ := hother
    have hbl := h.symm.subset (mem_of_mem_outputs hbetter hb)
    have hrank := le_antisymm (le_of_mem_outputs hbetter ha hbl hkey)
      (le_of_mem_outputs hbetter hb (h.subset hal) hkey.symm)
    rwa [huniq a hal b hbl hkey.symm hrank]
  · intro ha
    have ham := mem_of_mem_outputs hbetter ha
    have hal := h.symm.subset ham
    have hother : ∃ b ∈ outputs key better l, key b = key a := exists_mem_outputs hbetter hal
    obtain ⟨b, hb, hkey⟩ := hother
    have hbl := mem_of_mem_outputs hbetter hb
    have hrank := le_antisymm (le_of_mem_outputs hbetter ha (h.subset hbl) hkey)
      (le_of_mem_outputs hbetter hb hal hkey.symm)
    rwa [huniq a hal b hbl hkey.symm hrank]

end FactGraph.BestPerKey
