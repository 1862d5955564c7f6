import Mathlib.Data.List.Basic

/-!
# Insertion-ordered dictionaries

An association list read from the front, written in place: the first entry for a key is the
entry, a key that is already present keeps its position, a new key goes to the end. That is the
behaviour of a dictionary that remembers insertion order, over any key and value types.

Two dictionaries that answer every `get?` alike may still list their entries differently, so
the lemmas below are about `get?` and about `keys`, never about the list itself.
-/

namespace Dict

variable {K V : Type*} [DecidableEq K]

/-- The value stored at a key. -/
def get? : List (K × V) → K → Option V
  | [], _ => none
  | (k, v) :: rest, x => if x = k then some v else get? rest x

/-- Store a value: an existing key keeps its place, a new one goes to the end. -/
def set : List (K × V) → K → V → List (K × V)
  | [], x, v => [(x, v)]
  | (k, w) :: rest, x, v => if x = k then (k, v) :: rest else (k, w) :: set rest x v

/-- Is there an entry for the key? -/
def has (d : List (K × V)) (x : K) : Bool := (get? d x).isSome

/-- Drop the entries of a key. -/
def remove (d : List (K × V)) (x : K) : List (K × V) := d.filter fun p => p.1 ≠ x

/-- The keys, in insertion order. -/
def keys (d : List (K × V)) : List K := d.map Prod.fst

/-- Store every entry of a second dictionary, in order: its values win. -/
def update (d e : List (K × V)) : List (K × V) := e.foldl (fun acc p => set acc p.1 p.2) d

@[simp] theorem get?_nil (x : K) : get? ([] : List (K × V)) x = none := rfl

theorem get?_cons (k : K) (v : V) (rest : List (K × V)) (x : K) :
    get? ((k, v) :: rest) x = if x = k then some v else get? rest x := rfl

theorem get?_set (d : List (K × V)) (x : K) (v : V) (y : K) :
    get? (set d x v) y = if y = x then some v else get? d y := by
  induction d with
  | nil => rfl
  | cons p rest ih =>
    obtain ⟨k, w⟩ := p
    by_cases hxk : x = k
    · subst hxk
      by_cases hy : y = x <;> simp [set, get?_cons, hy]
    · by_cases hyk : y = k
      · subst hyk
        simp [set, get?_cons, hxk, Ne.symm hxk]
      · simp [set, get?_cons, hxk, hyk, ih]

theorem get?_set_self (d : List (K × V)) (x : K) (v : V) : get? (set d x v) x = some v := by
  simp [get?_set]

theorem get?_set_of_ne {d : List (K × V)} {x y : K} {v : V} (h : y ≠ x) :
    get? (set d x v) y = get? d y := by
  simp [get?_set, h]

theorem mem_keys_iff {d : List (K × V)} {x : K} : x ∈ keys d ↔ ∃ v, get? d x = some v := by
  induction d with
  | nil => simp [keys]
  | cons p rest ih =>
    obtain ⟨k, w⟩ := p
    simp only [keys, List.map_cons, List.mem_cons] at ih ⊢
    by_cases h : x = k
    · simp [h, get?_cons]
    · simp [h, get?_cons, ih]

theorem has_iff {d : List (K × V)} {x : K} : has d x = true ↔ x ∈ keys d := by
  simp [has, mem_keys_iff, Option.isSome_iff_exists]

theorem get?_eq_none_iff {d : List (K × V)} {x : K} : get? d x = none ↔ x ∉ keys d := by
  rw [mem_keys_iff]
  cases get? d x <;> simp

theorem get?_remove_self (d : List (K × V)) (x : K) : get? (remove d x) x = none := by
  rw [get?_eq_none_iff]
  intro hmem
  obtain ⟨p, hp, hkey⟩ := List.mem_map.mp hmem
  exact of_decide_eq_true (List.mem_filter.mp hp).2 hkey

theorem mem_keys_set {d : List (K × V)} {x y : K} {v : V} :
    y ∈ keys (set d x v) ↔ y = x ∨ y ∈ keys d := by
  simp only [mem_keys_iff, get?_set]
  by_cases h : y = x <;> simp [h]

theorem nodup_keys_set {d : List (K × V)} (h : (keys d).Nodup) (x : K) (v : V) :
    (keys (set d x v)).Nodup := by
  induction d with
  | nil => simp [set, keys]
  | cons p rest ih =>
    obtain ⟨k, w⟩ := p
    rw [keys, List.map_cons, List.nodup_cons] at h
    by_cases hxk : x = k
    · simpa [set, hxk, keys] using h
    · rw [set, if_neg hxk, keys, List.map_cons, List.nodup_cons]
      refine ⟨fun hk => ?_, ih h.2⟩
      rcases mem_keys_set.mp hk with hkx | hk
      · exact hxk hkx.symm
      · exact h.1 hk

/-- A new key goes to the end. -/
theorem set_of_not_mem {d : List (K × V)} {x : K} (h : x ∉ keys d) (v : V) :
    set d x v = d ++ [(x, v)] := by
  induction d with
  | nil => rfl
  | cons p rest ih =>
    obtain ⟨k, w⟩ := p
    rw [keys, List.map_cons, List.mem_cons, not_or] at h
    rw [set, if_neg h.1, ih h.2, List.cons_append]

theorem mem_set {d : List (K × V)} {x : K} {v : V} {p : K × V} (h : p ∈ set d x v) :
    p ∈ d ∨ p = (x, v) := by
  induction d with
  | nil => exact .inr (by simpa [set] using h)
  | cons q rest ih =>
    obtain ⟨k, w⟩ := q
    by_cases hxk : x = k
    · subst hxk
      rw [set, if_pos rfl] at h
      rcases List.mem_cons.mp h with rfl | h
      · exact .inr rfl
      · exact .inl (List.mem_cons_of_mem _ h)
    · rw [set, if_neg hxk] at h
      rcases List.mem_cons.mp h with rfl | h
      · exact .inl List.mem_cons_self
      · rcases ih h with h | h
        · exact .inl (List.mem_cons_of_mem _ h)
        · exact .inr h

theorem mem_of_get? {d : List (K × V)} {x : K} {v : V} (h : get? d x = some v) : (x, v) ∈ d := by
  induction d with
  | nil => cases h
  | cons p rest ih =>
    obtain ⟨k, w⟩ := p
    rw [get?_cons] at h
    by_cases hxk : x = k
    · rw [if_pos hxk] at h
      cases h
      rw [hxk]
      exact List.mem_cons_self
    · rw [if_neg hxk] at h
      exact List.mem_cons_of_mem _ (ih h)

theorem get?_eq_some_iff {d : List (K × V)} (h : (keys d).Nodup) {x : K} {v : V} :
    get? d x = some v ↔ (x, v) ∈ d := by
  induction d with
  | nil => simp
  | cons p rest ih =>
    obtain ⟨k, w⟩ := p
    rw [keys, List.map_cons, List.nodup_cons] at h
    rw [get?_cons, List.mem_cons, Prod.mk.injEq, ← ih h.2]
    by_cases hxk : x = k
    · subst hxk
      have hnone : get? rest x = none := get?_eq_none_iff.mpr h.1
      simp [hnone, eq_comm]
    · simp [hxk]

/-- The order of the entries does not matter. -/
theorem get?_perm {d e : List (K × V)} (h : d.Perm e) (hd : (keys d).Nodup) (x : K) :
    get? d x = get? e x := by
  have he : (keys e).Nodup := (h.map Prod.fst).nodup_iff.mp hd
  apply Option.ext
  intro v
  rw [get?_eq_some_iff hd, get?_eq_some_iff he, h.mem_iff]

/-- The values of the second dictionary win. -/
theorem get?_update {d e : List (K × V)} (h : (keys e).Nodup) (x : K) :
    get? (update d e) x = (get? e x).or (get? d x) := by
  unfold update
  induction e generalizing d with
  | nil => rfl
  | cons p rest ih =>
    obtain ⟨k, v⟩ := p
    rw [keys, List.map_cons, List.nodup_cons] at h
    rw [List.foldl_cons, ih h.2, get?_set, get?_cons]
    by_cases hxk : x = k
    · subst hxk
      have hnone : get? rest x = none := get?_eq_none_iff.mpr h.1
      simp [hnone]
    · simp [hxk]

theorem mem_keys_update {d e : List (K × V)} {x : K} :
    x ∈ keys (update d e) ↔ x ∈ keys e ∨ x ∈ keys d := by
  unfold update
  induction e generalizing d with
  | nil => simp [keys]
  | cons p rest ih =>
    have hcons : x ∈ keys (p :: rest) ↔ x = p.1 ∨ x ∈ keys rest := by
      rw [keys, List.map_cons, List.mem_cons, keys]
    rw [List.foldl_cons, ih, mem_keys_set, hcons]
    tauto

theorem nodup_keys_update {d : List (K × V)} (h : (keys d).Nodup) (e : List (K × V)) :
    (keys (update d e)).Nodup := by
  unfold update
  induction e generalizing d with
  | nil => exact h
  | cons p rest ih => exact ih (nodup_keys_set h p.1 p.2)

/-- New entries go to the end as they are. -/
theorem update_append {d e : List (K × V)} (h : (keys (d ++ e)).Nodup) : update d e = d ++ e := by
  induction e generalizing d with
  | nil => simp [update]
  | cons f fs ih =>
    have hfresh : f.1 ∉ keys d := by
      intro hmem
      simp only [keys, List.map_append, List.map_cons] at h hmem
      exact (List.nodup_append.mp h).2.2 _ hmem _ (by simp) rfl
    have hset : set d f.1 f.2 = d ++ [f] := set_of_not_mem hfresh f.2
    show update (set d f.1 f.2) fs = _
    rw [hset, ih (by simpa using h)]
    simp

/-- Where no key has two values, the order in which they are stored does not matter. -/
theorem get?_update_iff {d e : List (K × V)}
    (hfun : ∀ k v w, (k, v) ∈ e → (k, w) ∈ e → v = w) {x : K} {v : V} :
    get? (update d e) x = some v ↔ (x, v) ∈ e ∨ (x ∉ keys e ∧ get? d x = some v) := by
  unfold update
  induction e generalizing d with
  | nil => simp [keys]
  | cons p rest ih =>
    obtain ⟨k, w⟩ := p
    have hrest : ∀ k v w, (k, v) ∈ rest → (k, w) ∈ rest → v = w :=
      fun k v w hv hw => hfun k v w (List.mem_cons_of_mem _ hv) (List.mem_cons_of_mem _ hw)
    have hcons : x ∈ keys ((k, w) :: rest) ↔ x = k ∨ x ∈ keys rest := by
      rw [keys, List.map_cons, List.mem_cons, keys]
    rw [List.foldl_cons, ih hrest, get?_set, List.mem_cons, hcons, Prod.mk.injEq]
    by_cases hxk : x = k
    · subst hxk
      simp only [if_true, Option.some.injEq, true_and, true_or, not_true, false_and, or_false]
      constructor
      · rintro (hmem | ⟨_, rfl⟩)
        · exact .inr hmem
        · exact .inl rfl
      · rintro (rfl | hmem)
        · by_cases hk : x ∈ keys rest
          · obtain ⟨⟨y, u⟩, hu, rfl⟩ := List.mem_map.mp hk
            have huv : v = u := hfun y v u List.mem_cons_self (List.mem_cons_of_mem _ hu)
            exact .inl (huv ▸ hu)
          · exact .inr ⟨hk, rfl⟩
        · exact .inl hmem
    · simp [hxk]

/-! ## Mapping the values -/

variable {W : Type*}

theorem get?_map (f : K → V → W) (d : List (K × V)) (x : K) :
    get? (d.map fun p => (p.1, f p.1 p.2)) x = (get? d x).map (f x) := by
  induction d with
  | nil => rfl
  | cons p rest ih =>
    obtain ⟨k, v⟩ := p
    rw [List.map_cons, get?_cons, get?_cons, ih]
    by_cases hxk : x = k
    · subst hxk
      simp
    · simp [hxk]

theorem map_set (f : K → V → W) (d : List (K × V)) (x : K) (v : V) :
    (set d x v).map (fun p => (p.1, f p.1 p.2)) =
      set (d.map fun p => (p.1, f p.1 p.2)) x (f x v) := by
  induction d with
  | nil => rfl
  | cons p rest ih =>
    obtain ⟨k, w⟩ := p
    by_cases hxk : x = k
    · subst hxk
      simp [set]
    · simp [set, hxk, ih]

end Dict
