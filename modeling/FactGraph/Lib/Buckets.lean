import FactGraph.Lib.Dict

/-!
# Secondary indexes

A store that keeps a list of rows often keeps, beside it, dictionaries from some key of a row
to the rows that carry it, and extends them row by row. `Buckets.Indexes f rows d` says that such
a dictionary answers every key with exactly the rows of that key, in the order of the list;
`Indexes.add` is the one step every such store takes.
-/

namespace Buckets

variable {K V W : Type*} [DecidableEq K]

/-- The rows stored at a key; an absent key has none. -/
def get (d : List (K × List V)) (k : K) : List V := (Dict.get? d k).getD []

/-- Append one row to the rows of a key. -/
def add (d : List (K × List V)) (k : K) (v : V) : List (K × List V) := Dict.set d k (get d k ++ [v])

/-- Take one row away from the rows of a key. -/
def drop [DecidableEq V] (d : List (K × List V)) (k : K) (v : V) : List (K × List V) :=
  Dict.set d k ((get d k).erase v)

@[simp] theorem get_nil (k : K) : get ([] : List (K × List V)) k = [] := rfl

theorem get_add (d : List (K × List V)) (k : K) (v : V) (x : K) :
    get (add d k v) x = if x = k then get d k ++ [v] else get d x := by
  by_cases h : x = k <;> simp [get, add, Dict.get?_set, h]

@[simp] theorem get_add_self (d : List (K × List V)) (k : K) (v : V) :
    get (add d k v) k = get d k ++ [v] := by simp [get_add]

theorem get_add_of_ne {d : List (K × List V)} {k x : K} {v : V} (h : x ≠ k) :
    get (add d k v) x = get d x := by simp [get_add, h]

/-- The dictionary answers every key with `g` of the rows of that key. -/
def Indexes (f : W → K) (g : W → V) (rows : List W) (d : List (K × List V)) : Prop :=
  ∀ k, get d k = (rows.filter fun row => f row = k).map g

theorem indexes_nil (f : W → K) (g : W → V) : Indexes f g [] ([] : List (K × List V)) :=
  fun _ => rfl

theorem Indexes.add {f : W → K} {g : W → V} {rows : List W} {d : List (K × List V)}
    (h : Indexes f g rows d) (row : W) :
    Indexes f g (rows ++ [row]) (Buckets.add d (f row) (g row)) := by
  intro k
  by_cases hk : k = f row
  · subst hk
    simp [h (f row), List.filter_append]
  · simp [get_add_of_ne hk, h k, List.filter_append, Ne.symm hk]

/-- Adding the rows of a list one by one. -/
theorem Indexes.foldl {f : W → K} {g : W → V} {rows : List W} {d : List (K × List V)}
    (h : Indexes f g rows d) (more : List W) :
    Indexes f g (rows ++ more) (more.foldl (fun d row => Buckets.add d (f row) (g row)) d) := by
  induction more generalizing rows d with
  | nil => simpa using h
  | cons row more ih => simpa using ih (h.add row)

/-! ## Grouping a list -/

/-- The rows of a list by a key, each carried by `g`. -/
def ofList (f : W → K) (g : W → V) (rows : List W) : List (K × List V) :=
  rows.foldl (fun d row => add d (f row) (g row)) []

theorem indexes_ofList (f : W → K) (g : W → V) (rows : List W) :
    Indexes f g rows (ofList f g rows) := by
  unfold ofList
  simpa using (indexes_nil f g).foldl rows

theorem nodup_keys_ofList (f : W → K) (g : W → V) (rows : List W) :
    (Dict.keys (ofList f g rows)).Nodup := by
  suffices h : ∀ d : List (K × List V), (Dict.keys d).Nodup →
      (Dict.keys (rows.foldl (fun d row => add d (f row) (g row)) d)).Nodup from
    h [] (by simp [Dict.keys])
  induction rows with
  | nil => exact fun d hd => hd
  | cons row rows ih => exact fun d hd => ih _ (Dict.nodup_keys_set hd _ _)

theorem mem_keys_ofList {f : W → K} {g : W → V} {rows : List W} {k : K} :
    k ∈ Dict.keys (ofList f g rows) ↔ ∃ row ∈ rows, f row = k := by
  suffices h : ∀ d : List (K × List V),
      k ∈ Dict.keys (rows.foldl (fun d row => add d (f row) (g row)) d) ↔
        k ∈ Dict.keys d ∨ ∃ row ∈ rows, f row = k by
    unfold ofList
    simpa [Dict.keys] using h []
  induction rows with
  | nil => simp
  | cons row rows ih =>
    intro d
    rw [List.foldl_cons, ih]
    simp only [add, Dict.mem_keys_set, List.mem_cons, exists_eq_or_imp]
    constructor
    · rintro ((rfl | hk) | hr)
      · exact .inr (.inl rfl)
      · exact .inl hk
      · exact .inr (.inr hr)
    · rintro (hk | rfl | hr)
      · exact .inl (.inr hk)
      · exact .inl (.inl rfl)
      · exact .inr hr

/-- A group is exactly the rows of its key, and only keys that occur have one. -/
theorem mem_ofList {f : W → K} {g : W → V} {rows : List W} {k : K} {vs : List V} :
    (k, vs) ∈ ofList f g rows ↔
      vs = (rows.filter fun row => f row = k).map g ∧ ∃ row ∈ rows, f row = k := by
  rw [← Dict.get?_eq_some_iff (nodup_keys_ofList f g rows), ← mem_keys_ofList (g := g),
    Dict.mem_keys_iff]
  have hget := indexes_ofList f g rows k
  constructor
  · intro h
    refine ⟨?_, vs, h⟩
    rw [← hget]
    simp [get, h]
  · rintro ⟨rfl, ws, hws⟩
    rw [hws, ← hget]
    simp [get, hws]

end Buckets
