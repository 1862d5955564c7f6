import FactGraph.Codec.Objects

/-!
# Values of a receipt

`_to_jsonable` and `_from_jsonable` of `core/store/_support.py`, on the Python objects that a binding,
a detail, a witness or a payload may hold. No text stands between the two: what one returns the other
is given.

Writing goes into `dict`s, reading does not. So a value comes back if it is no tuple and has none in
its lists, and what is inside a `dict` is the same written as not (`fromJsonable_toJsonable`), and only
then (`kept_of_restored`).

A `dict` is kept as `sorted(value.items(), key=lambda row: str(row[0]))` lists it, which is how it
is written; nothing here reads it in another order.
-/

namespace FactGraph.Codec.Support

open Protocol Store Db JsonText

variable {K : Type} [DecidableEq K]

/-- What reading a receipt raises. -/
inductive SupportErr where
  | valueError (msg : String)
  | typeError (msg : String)
  | keyError (key : String)
  deriving DecidableEq, Repr

/-! ## Bytes -/

/-- `Py_ISSPACE`. -/
def isAsciiSpace (c : Char) : Bool := c = ' ' || (9 ≤ c.toNat && c.toNat ≤ 13)

/-- `bytes.fromhex`, on characters. -/
def fromHexChars? : List Char → Option (List UInt8)
  | [] => some []
  | [c] => if isAsciiSpace c then some [] else none
  | c :: d :: rest =>
      if isAsciiSpace c then fromHexChars? (d :: rest)
      else do
        let high ← hexNibble? c
        let low ← hexNibble? d
        let raw ← fromHexChars? rest
        some (UInt8.ofNat (high * 16 + low) :: raw)

/-- `bytes.fromhex`. -/
def bytesFromHex? (text : String) : Option (List UInt8) := fromHexChars? text.toList

theorem bytesFromHex?_hexdigest (raw : List UInt8) : bytesFromHex? (hexdigest raw) = some raw := by
  have hspace : ∀ n : Fin 16, isAsciiSpace (hexDigit n.val) = false := by decide
  have hdigit : ∀ n, isAsciiSpace (hexDigit n) = false := by
    intro n
    have hmod : hexDigit n = hexDigit (n % 16) := by simp [hexDigit]
    rw [hmod]
    exact hspace ⟨n % 16, Nat.mod_lt _ (by omega)⟩
  unfold bytesFromHex? hexdigest
  rw [String.toList_ofList]
  induction raw with
  | nil => rfl
  | cons b raw ih =>
    rw [List.flatMap_cons]
    show fromHexChars? (hexDigit (b.toNat / 16) :: hexDigit b.toNat ::
      raw.flatMap fun b => [hexDigit (b.toNat / 16), hexDigit b.toNat]) = _
    rw [fromHexChars?, hdigit, if_neg Bool.false_ne_true, hexNibble?_hexDigit, hexNibble?_hexDigit, ih]
    have hb := b.toNat_lt
    have hvalue : b.toNat / 16 % 16 * 16 + b.toNat % 16 = b.toNat := by omega
    show some (UInt8.ofNat (b.toNat / 16 % 16 * 16 + b.toNat % 16) :: raw) = some (b :: raw)
    rw [hvalue, UInt8.ofNat_toNat]

/-! ## Writing and reading -/

/-- The key of written bytes. -/
def bytesHexKey : String := "__bytes_hex__"

mutual

/-- `_to_jsonable`. -/
def toJsonable (keyStr : K → String) : PyObj K → PyObj K
  | .leaf (.bytes raw) => .dict [(.str bytesHexKey, .leaf (.str (hexdigest raw)))]
  | .leaf s => .leaf s
  | .list xs => .list (toJsonableList keyStr xs)
  | .tuple xs => .list (toJsonableList keyStr xs)
  | .dict fs => .dict (Dict.update [] (toJsonableFields keyStr fs))

def toJsonableList (keyStr : K → String) : List (PyObj K) → List (PyObj K)
  | [] => []
  | x :: xs => toJsonable keyStr x :: toJsonableList keyStr xs

def toJsonableFields (keyStr : K → String) : List (Key K × PyObj K) → List (Key K × PyObj K)
  | [] => []
  | (k, x) :: fs => (.str (k.text keyStr), toJsonable keyStr x) :: toJsonableFields keyStr fs

end

mutual

/-- `_from_jsonable`. -/
def fromJsonable : PyObj K → Except SupportErr (PyObj K)
  | .leaf s => .ok (.leaf s)
  | .tuple xs => .ok (.tuple xs)
  | .list xs => (fromJsonableList xs).map .list
  | .dict [(.str key, value)] =>
      if key = bytesHexKey then
        match value with
        | .leaf (.str text) =>
            match bytesFromHex? text with
            | some raw => .ok (.leaf (.bytes raw))
            | none => .error (.valueError "non-hexadecimal number found in fromhex() arg")
        | _ => .error (.typeError "fromhex() argument must be str")
      else .ok (.dict [(.str key, value)])
  | .dict fs => .ok (.dict fs)

def fromJsonableList : List (PyObj K) → Except SupportErr (List (PyObj K))
  | [] => .ok []
  | x :: xs => do
      let y ← fromJsonable x
      let ys ← fromJsonableList xs
      .ok (y :: ys)

end

mutual

/-- `x == y`. -/
def eqv : PyObj K → PyObj K → Bool
  | .leaf s, .leaf t => decide (s.canon = t.canon)
  | .list xs, .list ys => eqvList xs ys
  | .tuple xs, .tuple ys => eqvList xs ys
  | .dict fs, .dict gs => fs.length == gs.length && eqvFields fs gs
  | _, _ => false

def eqvList : List (PyObj K) → List (PyObj K) → Bool
  | [], [] => true
  | x :: xs, y :: ys => eqv x y && eqvList xs ys
  | _, _ => false

def eqvFields : List (Key K × PyObj K) → List (Key K × PyObj K) → Bool
  | [], _ => true
  | (k, x) :: fs, gs =>
      (match Dict.get? gs k with
        | some y => eqv x y
        | none => false) && eqvFields fs gs

end

mutual

/-- A Python object as it is kept here: the keys of a `dict` are distinct, and it is listed by their
texts. -/
def Listed (keyStr : K → String) : PyObj K → Prop
  | .leaf _ => True
  | .list xs => ListedAll keyStr xs
  | .tuple xs => ListedAll keyStr xs
  | .dict fs => (Dict.keys fs).Nodup ∧ fs.Pairwise (fun p q => p.1.text keyStr ≤ q.1.text keyStr) ∧
      ListedFields keyStr fs

def ListedAll (keyStr : K → String) : List (PyObj K) → Prop
  | [] => True
  | x :: xs => Listed keyStr x ∧ ListedAll keyStr xs

def ListedFields (keyStr : K → String) : List (Key K × PyObj K) → Prop
  | [] => True
  | (_, x) :: fs => Listed keyStr x ∧ ListedFields keyStr fs

end

/-! ## What is written as it is -/

mutual

/-- No bytes, no tuple and no key but strings. -/
def Fixed : PyObj K → Prop
  | .leaf (.bytes _) => False
  | .leaf _ => True
  | .list xs => FixedList xs
  | .tuple _ => False
  | .dict fs => FixedFields fs

def FixedList : List (PyObj K) → Prop
  | [] => True
  | x :: xs => Fixed x ∧ FixedList xs

def FixedFields : List (Key K × PyObj K) → Prop
  | [] => True
  | (.str _, x) :: fs => Fixed x ∧ FixedFields fs
  | (.other _, _) :: _ => False

end

variable {keyStr : K → String}

theorem toJsonableFields_eq (fs : List (Key K × PyObj K)) :
    toJsonableFields keyStr fs =
      fs.map fun p => (.str (p.1.text keyStr), toJsonable keyStr p.2) := by
  induction fs with
  | nil => rfl
  | cons p fs ih => rw [toJsonableFields, ih, List.map_cons]

omit [DecidableEq K] in
theorem fixedFields_iff {fs : List (Key K × PyObj K)} :
    FixedFields fs ↔ ∀ p ∈ fs, (∃ k, p.1 = .str k) ∧ Fixed p.2 := by
  induction fs with
  | nil => simp [FixedFields]
  | cons p fs ih =>
    obtain ⟨k, x⟩ := p
    cases k with
    | str k => simp [FixedFields, ih]
    | other k => simp [FixedFields]

omit [DecidableEq K] in
theorem listedFields_iff {fs : List (Key K × PyObj K)} :
    ListedFields keyStr fs ↔ ∀ p ∈ fs, Listed keyStr p.2 := by
  induction fs with
  | nil => simp [ListedFields]
  | cons p fs ih => simp [ListedFields, ih]

theorem eqvFields_iff {fs gs : List (Key K × PyObj K)} :
    eqvFields fs gs = true ↔ ∀ p ∈ fs, ∃ y, Dict.get? gs p.1 = some y ∧ eqv p.2 y = true := by
  induction fs with
  | nil => simp [eqvFields]
  | cons p fs ih =>
    obtain ⟨k, x⟩ := p
    rw [eqvFields, Bool.and_eq_true, ih, List.forall_mem_cons]
    refine and_congr_left fun _ => ?_
    cases hget : Dict.get? gs k with
    | none => simp
    | some y => simp

/-- The fields of a `dict` with string keys, as they are written. -/
theorem update_toJsonableFields {fs : List (Key K × PyObj K)} (hnodup : (Dict.keys fs).Nodup)
    (hstr : ∀ p ∈ fs, ∃ k, p.1 = .str k) :
    Dict.update [] (toJsonableFields keyStr fs) = fs.map fun p => (p.1, toJsonable keyStr p.2) := by
  have hsame : toJsonableFields keyStr fs = fs.map fun p => (p.1, toJsonable keyStr p.2) := by
    rw [toJsonableFields_eq]
    refine List.map_congr_left fun p hp => ?_
    obtain ⟨k, hk⟩ := hstr p hp
    rw [hk]
    rfl
  rw [hsame]
  have hkeys : (Dict.keys (fs.map fun p => (p.1, toJsonable keyStr p.2))).Nodup := by
    unfold Dict.keys at hnodup ⊢
    rw [List.map_map]
    exact hnodup
  exact Dict.update_append (by simpa using hkeys)

mutual

theorem toJsonable_of_fixed : ∀ v : PyObj K, Listed keyStr v → Fixed v → toJsonable keyStr v = v
  | .leaf s, _, h => by
      cases s with
      | bytes raw => cases h
      | none | bool | int | float | str => rfl
  | .list xs, hl, h => by rw [toJsonable, toJsonableList_of_fixed xs hl h]
  | .tuple _, _, h => by cases h
  | .dict fs, hl, h => by
      have hstr : ∀ p ∈ fs, ∃ k, p.1 = .str k := fun p hp => (fixedFields_iff.mp h p hp).1
      rw [toJsonable, update_toJsonableFields hl.1 hstr, toJsonableValues_of_fixed fs hl.2.2 h]

theorem toJsonableList_of_fixed : ∀ xs : List (PyObj K), ListedAll keyStr xs → FixedList xs →
    toJsonableList keyStr xs = xs
  | [], _, _ => rfl
  | x :: xs, hl, h => by
      rw [toJsonableList, toJsonable_of_fixed x hl.1 h.1, toJsonableList_of_fixed xs hl.2 h.2]

theorem toJsonableValues_of_fixed : ∀ fs : List (Key K × PyObj K), ListedFields keyStr fs →
    FixedFields fs → (fs.map fun p => (p.1, toJsonable keyStr p.2)) = fs
  | [], _, _ => rfl
  | (.str k, x) :: fs, hl, h => by
      rw [List.map_cons, toJsonable_of_fixed x hl.1 h.1, toJsonableValues_of_fixed fs hl.2 h.2]
  | (.other _, _) :: _, _, h => by cases h

end

/-- A `dict` equal to one with string keys has string keys. -/
theorem keys_of_eqv {ds fs : List (Key K × PyObj K)} (hnodup : (Dict.keys ds).Nodup)
    (hstr : ∀ k ∈ Dict.keys ds, ∃ s, k = .str s) (h : eqv (.dict ds) (.dict fs) = true) :
    ∀ p ∈ fs, ∃ k, p.1 = .str k := by
  rw [eqv, Bool.and_eq_true, beq_iff_eq, eqvFields_iff] at h
  obtain ⟨hlen, hfields⟩ := h
  -- every key of the one is a key of the other, and there are as many
  have hsub : ∀ k ∈ Dict.keys ds, k ∈ Dict.keys fs := by
    intro k hk
    obtain ⟨p, hp, rfl⟩ := List.mem_map.mp hk
    obtain ⟨y, hy, -⟩ := hfields p hp
    exact Dict.mem_keys_iff.mpr ⟨y, hy⟩
  have hperm : (Dict.keys ds).Perm (Dict.keys fs) := by
    refine List.Subperm.perm_of_length_le (hnodup.subperm hsub) ?_
    unfold Dict.keys
    rw [List.length_map, List.length_map, hlen]
  intro p hp
  exact hstr p.1 (hperm.mem_iff.mpr (List.mem_map.mpr ⟨p, hp, rfl⟩))

/-- What is written of a `dict` has string keys, each once. -/
theorem keys_update_toJsonableFields (fs : List (Key K × PyObj K)) :
    (Dict.keys (Dict.update [] (toJsonableFields keyStr fs))).Nodup ∧
      ∀ k ∈ Dict.keys (Dict.update [] (toJsonableFields keyStr fs)), ∃ s, k = .str s := by
  have hempty : (Dict.keys ([] : List (Key K × PyObj K))).Nodup := List.nodup_nil
  refine ⟨Dict.nodup_keys_update hempty _, ?_⟩
  intro k hk
  rcases Dict.mem_keys_update.mp hk with hk | hk
  · rw [toJsonableFields_eq] at hk
    obtain ⟨p, hp, rfl⟩ := List.mem_map.mp hk
    obtain ⟨q, -, rfl⟩ := List.mem_map.mp hp
    exact ⟨_, rfl⟩
  · cases hk

/-- A `dict` that is written as one equal to it has string keys, and is written value by value. -/
theorem fields_of_eqv {fs : List (Key K × PyObj K)} (hnodup : (Dict.keys fs).Nodup)
    (h : eqv (toJsonable keyStr (.dict fs)) (.dict fs) = true) :
    ∀ p ∈ fs, (∃ k, p.1 = .str k) ∧ eqv (toJsonable keyStr p.2) p.2 = true := by
  rw [toJsonable] at h
  obtain ⟨hwritten, hkeys⟩ := @keys_update_toJsonableFields K _ keyStr fs
  have hstr := keys_of_eqv hwritten hkeys h
  rw [update_toJsonableFields hnodup hstr, eqv, Bool.and_eq_true, eqvFields_iff] at h
  intro p hp
  refine ⟨hstr p hp, ?_⟩
  obtain ⟨y, hy, heqv⟩ := h.2 (p.1, toJsonable keyStr p.2) (List.mem_map.mpr ⟨p, hp, rfl⟩)
  rw [(Dict.get?_eq_some_iff hnodup).mpr hp] at hy
  cases hy
  exact heqv

mutual

theorem fixed_of_eqv : ∀ v : PyObj K, Listed keyStr v → eqv (toJsonable keyStr v) v = true → Fixed v
  | .leaf s, _, h => by
      cases s with
      | bytes raw => cases h
      | none | bool | int | float | str => exact trivial
  | .list xs, hl, h => fixedList_of_eqv xs hl h
  | .tuple _, _, h => by cases h
  | .dict fs, hl, h => fixedFields_of_eqv fs hl.2.2 (fields_of_eqv hl.1 h)

theorem fixedList_of_eqv : ∀ xs : List (PyObj K), ListedAll keyStr xs →
    eqvList (toJsonableList keyStr xs) xs = true → FixedList xs
  | [], _, _ => trivial
  | x :: xs, hl, h => by
      rw [toJsonableList, eqvList, Bool.and_eq_true] at h
      exact ⟨fixed_of_eqv x hl.1 h.1, fixedList_of_eqv xs hl.2 h.2⟩

theorem fixedFields_of_eqv : ∀ fs : List (Key K × PyObj K), ListedFields keyStr fs →
    (∀ p ∈ fs, (∃ k, p.1 = .str k) ∧ eqv (toJsonable keyStr p.2) p.2 = true) → FixedFields fs
  | [], _, _ => trivial
  | (.str k, x) :: fs, hl, h =>
      ⟨fixed_of_eqv x hl.1 (h (.str k, x) (by simp)).2,
        fixedFields_of_eqv fs hl.2 fun p hp => h p (by simp [hp])⟩
  | (.other k, x) :: fs, _, h => by
      obtain ⟨l, hl⟩ := (h (.other k, x) (by simp)).1
      cases hl

end

/-! ## What comes back -/

mutual

/-- No tuple, bytes only outside of `dict`s, and no `dict` whose one key is that of written bytes. -/
def Kept : PyObj K → Prop
  | .leaf _ => True
  | .list xs => KeptList xs
  | .tuple _ => False
  | .dict fs => Dict.keys fs ≠ [.str bytesHexKey] ∧ FixedFields fs

def KeptList : List (PyObj K) → Prop
  | [] => True
  | x :: xs => Kept x ∧ KeptList xs

end

/-- The value comes back as an object equal to it. -/
def Restored (keyStr : K → String) (v : PyObj K) : Prop :=
  ∃ w, fromJsonable (toJsonable keyStr v) = .ok w ∧ eqv w v = true

omit [DecidableEq K] in
/-- A `dict` that does not look like bytes is read as it is. -/
theorem fromJsonable_dict {fs : List (Key K × PyObj K)} (h : Dict.keys fs ≠ [.str bytesHexKey]) :
    fromJsonable (.dict fs) = .ok (.dict fs) := by
  rw [fromJsonable.eq_def]
  split
  · rename_i heq
    cases heq
  · rename_i heq
    cases heq
  · rename_i heq
    cases heq
  · rename_i key value heq
    cases heq
    have hkey : key ≠ bytesHexKey := by
      intro hkey
      exact h (by rw [hkey]; rfl)
    rw [if_neg hkey]
  · rename_i heq
    cases heq
    rfl

omit [DecidableEq K] in
/-- What is read from a `dict` that looks like bytes is no `dict`. -/
theorem not_dict_of_marked {fs gs : List (Key K × PyObj K)} (h : Dict.keys fs = [.str bytesHexKey]) :
    fromJsonable (.dict fs) ≠ .ok (.dict gs) := by
  have hshape : ∃ value, fs = [(.str bytesHexKey, value)] := by
    unfold Dict.keys at h
    obtain ⟨p, rfl⟩ := List.length_eq_one_iff.mp (show fs.length = 1 by
      simpa using congrArg List.length h)
    obtain ⟨key, value⟩ := p
    exact ⟨value, by rw [show key = .str bytesHexKey from (List.cons.inj h).1]⟩
  obtain ⟨value, rfl⟩ := hshape
  rw [fromJsonable.eq_def]
  simp only [if_true]
  split
  · split
    · intro heq
      cases heq
    · intro heq
      cases heq
  · intro heq
    cases heq

theorem keys_values (fs : List (Key K × PyObj K)) :
    Dict.keys (fs.map fun p => (p.1, toJsonable keyStr p.2)) = Dict.keys fs := by
  unfold Dict.keys
  rw [List.map_map]
  rfl

mutual

/-- What is kept comes back as it is. -/
theorem fromJsonable_toJsonable : ∀ v : PyObj K, Listed keyStr v → Kept v →
    fromJsonable (toJsonable keyStr v) = .ok v
  | .leaf s, _, _ => by
      cases s with
      | bytes raw =>
        show fromJsonable (.dict [(.str bytesHexKey, .leaf (.str (hexdigest raw)))]) = _
        rw [fromJsonable, if_pos rfl]
        simp only [bytesFromHex?_hexdigest]
      | none | bool | int | float | str => rfl
  | .list xs, hl, h => by
      rw [toJsonable, fromJsonable, fromJsonableList_toJsonableList xs hl h]
      rfl
  | .tuple _, _, h => by cases h
  | .dict fs, hl, h => by
      rw [toJsonable_of_fixed (.dict fs) hl h.2, fromJsonable_dict h.1]

theorem fromJsonableList_toJsonableList : ∀ xs : List (PyObj K), ListedAll keyStr xs →
    KeptList xs → fromJsonableList (toJsonableList keyStr xs) = .ok xs
  | [], _, _ => rfl
  | x :: xs, hl, h => by
      rw [toJsonableList, fromJsonableList, fromJsonable_toJsonable x hl.1 h.1, Check.ok_bind,
        fromJsonableList_toJsonableList xs hl.2 h.2, Check.ok_bind]

end

mutual

theorem eqv_refl : ∀ v : PyObj K, Listed keyStr v → eqv v v = true
  | .leaf s, _ => by simp [eqv]
  | .list xs, h => eqvList_refl xs h
  | .tuple xs, h => eqvList_refl xs h
  | .dict fs, h => by
      rw [eqv, Bool.and_eq_true, beq_iff_eq, eqvFields_iff]
      refine ⟨rfl, fun p hp => ⟨p.2, (Dict.get?_eq_some_iff h.1).mpr hp, ?_⟩⟩
      exact eqv_refl_fields fs h.2.2 p hp

theorem eqvList_refl : ∀ xs : List (PyObj K), ListedAll keyStr xs → eqvList xs xs = true
  | [], _ => rfl
  | x :: xs, h => by rw [eqvList, eqv_refl x h.1, eqvList_refl xs h.2]; rfl

theorem eqv_refl_fields : ∀ fs : List (Key K × PyObj K), ListedFields keyStr fs →
    ∀ p ∈ fs, eqv p.2 p.2 = true
  | [], _ => by simp
  | (k, x) :: fs, h => by
      intro p hp
      rcases List.mem_cons.mp hp with rfl | hp
      · exact eqv_refl x h.1
      · exact eqv_refl_fields fs h.2 p hp

end

mutual

theorem kept_of_restored : ∀ v : PyObj K, Listed keyStr v → Restored keyStr v → Kept v
  | .leaf _, _, _ => trivial
  | .list xs, hl, h => by
      obtain ⟨w, hw, heqv⟩ := h
      rw [toJsonable, fromJsonable] at hw
      cases hread : fromJsonableList (toJsonableList keyStr xs) with
      | error e =>
        rw [hread] at hw
        cases hw
      | ok ys =>
        rw [hread] at hw
        cases hw
        exact keptList_of_restored xs hl hread heqv
  | .tuple xs, _, h => by
      obtain ⟨w, hw, heqv⟩ := h
      rw [toJsonable, fromJsonable] at hw
      cases hread : fromJsonableList (toJsonableList keyStr xs) with
      | error e =>
        rw [hread] at hw
        cases hw
      | ok ys =>
        rw [hread] at hw
        cases hw
        cases heqv
  | .dict fs, hl, h => by
      obtain ⟨w, hw, heqv⟩ := h
      have hdict : ∃ gs, w = .dict gs := by
        cases w with
        | dict gs => exact ⟨gs, rfl⟩
        | leaf | list | tuple => cases heqv
      obtain ⟨gs, rfl⟩ := hdict
      have hmarked : Dict.keys (Dict.update [] (toJsonableFields keyStr fs)) ≠ [.str bytesHexKey] := by
        intro hkeys
        exact not_dict_of_marked hkeys hw
      have hsame := hw
      rw [toJsonable, fromJsonable_dict hmarked] at hsame
      rw [← Except.ok.inj hsame] at heqv
      have hfields := fields_of_eqv hl.1 heqv
      refine ⟨?_, fixedFields_of_eqv fs hl.2.2 hfields⟩
      rw [update_toJsonableFields hl.1 fun p hp => (hfields p hp).1, keys_values] at hmarked
      exact hmarked

theorem keptList_of_restored : ∀ {ys : List (PyObj K)} (xs : List (PyObj K)), ListedAll keyStr xs →
    fromJsonableList (toJsonableList keyStr xs) = .ok ys → eqvList ys xs = true → KeptList xs
  | _, [], _, _, _ => trivial
  | ys, x :: xs, hl, hread, heqv => by
      rw [toJsonableList, fromJsonableList] at hread
      obtain ⟨y, hy, hread⟩ := Check.bind_ok_iff.mp hread
      obtain ⟨ys', hys, hread⟩ := Check.bind_ok_iff.mp hread
      cases hread
      rw [eqvList, Bool.and_eq_true] at heqv
      exact ⟨kept_of_restored x hl.1 ⟨y, hy, heqv.1⟩, keptList_of_restored xs hl.2 hys heqv.2⟩

end

end FactGraph.Codec.Support
