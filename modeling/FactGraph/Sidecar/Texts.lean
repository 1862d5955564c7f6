import FactGraph.Sidecar.Traces

/-!
# What comes back from a text

An artifact is written as a JSON text with the keys of every object in order, and read from it
(`reread`). A record is read field by field, so that the order of its fields does not matter
(`reread_row_at`); a value inside stays as it is, for a `dict` is kept here as its keys list it.

So an artifact that has a text comes back from it if its constructors accept it and its values are
kept. For a receipt that is what brings it back from its `dict` (`Codec.Receipts`). Of a trace the
where clauses are to have no bytes at all, since they are read as they stand, and no step is to have a
status of an older version, which is read as the one that took its place.
-/

namespace FactGraph.Sidecar

open Protocol Store Db JsonText Check Codec Codec.Support

variable {K : Type}

/-! ## Values -/

/-- The order of fields in a text. -/
def keyLe (p q : Key K × PyObj K) : Prop := p.1.text (fun _ => "") ≤ q.1.text (fun _ => "")

instance : DecidableRel (keyLe (K := K)) := fun _ _ => inferInstanceAs (Decidable (_ ≤ _))

mutual

/-- What `json.loads` makes of the text of an object. -/
def reread : PyObj K → PyObj K
  | .leaf (.float x) => .leaf (.float (oneNan x))
  | .leaf s => .leaf s
  | .list xs => .list (rereadList xs)
  | .tuple xs => .list (rereadList xs)
  | .dict fs => .dict ((rereadFields fs).insertionSort keyLe)

def rereadList : List (PyObj K) → List (PyObj K)
  | [] => []
  | x :: xs => reread x :: rereadList xs

def rereadFields : List (Key K × PyObj K) → List (Key K × PyObj K)
  | [] => []
  | (k, x) :: fs => (k, reread x) :: rereadFields fs

end

mutual

/-- No `dict` of the object has a key twice. -/
def Distinct : PyObj K → Prop
  | .leaf _ => True
  | .list xs => DistinctList xs
  | .tuple xs => DistinctList xs
  | .dict fs => (Dict.keys fs).Nodup ∧ DistinctFields fs

def DistinctList : List (PyObj K) → Prop
  | [] => True
  | x :: xs => Distinct x ∧ DistinctList xs

def DistinctFields : List (Key K × PyObj K) → Prop
  | [] => True
  | (_, x) :: fs => Distinct x ∧ DistinctFields fs

end

mutual

/-- No float of the object is a NaN other than the one that a text has. -/
def Told : PyObj K → Prop
  | .leaf (.float x) => oneNan x = x
  | .leaf _ => True
  | .list xs => ToldList xs
  | .tuple xs => ToldList xs
  | .dict fs => ToldFields fs

def ToldList : List (PyObj K) → Prop
  | [] => True
  | x :: xs => Told x ∧ ToldList xs

def ToldFields : List (Key K × PyObj K) → Prop
  | [] => True
  | (_, x) :: fs => Told x ∧ ToldFields fs

end

theorem rereadFields_eq (fs : List (Key K × PyObj K)) :
    rereadFields fs = fs.map fun p => (p.1, reread p.2) := by
  induction fs with
  | nil => rfl
  | cons p fs ih => rw [rereadFields, ih, List.map_cons]

theorem rereadList_eq (xs : List (PyObj K)) : rereadList xs = xs.map reread := by
  induction xs with
  | nil => rfl
  | cons x xs ih => rw [rereadList, ih, List.map_cons]

theorem objectOfFields_eq (fs : List (String × Json)) :
    (objectOfFields fs : List (Key K × PyObj K)) = fs.map fun p => (.str p.1, objectOf p.2) := by
  induction fs with
  | nil => rfl
  | cons p fs ih => rw [objectOfFields, ih, List.map_cons]

theorem mapLeavesFields_eq {L M : Type} (f : L → M) (fs : List (String × Doc L)) :
    mapLeavesFields f fs = fs.map fun p => (p.1, mapLeaves f p.2) := by
  induction fs with
  | nil => rfl
  | cons p fs ih => rw [mapLeavesFields, ih, List.map_cons]

/-- Sorting, before and after the values are read. -/
theorem objectOfFields_sorted (fs : List (String × Json)) :
    (objectOfFields (mapLeavesFields telling (fs.insertionSort fun p q => p.1 ≤ q.1)) :
        List (Key K × PyObj K)) =
      (objectOfFields (mapLeavesFields telling fs)).insertionSort keyLe := by
  rw [objectOfFields_eq, objectOfFields_eq, mapLeavesFields_eq, mapLeavesFields_eq, List.map_map,
    List.map_map]
  exact List.map_insertionSort _ _ _ _ fun p _ q _ => Iff.rfl

mutual

/-- The text of an object is read as the object, reread. -/
theorem objectOf_json? : ∀ (v : PyObj K) (d : Json), json? v = some d →
    objectOf (mapLeaves telling (sortKeys d)) = reread v
  | .leaf s, d, h => by
      cases s with
      | bytes => cases h
      | none | bool | int | float | str =>
        cases h
        rfl
  | .list xs, d, h => by
      obtain ⟨ds, hds, rfl⟩ := Option.map_eq_some_iff.mp h
      rw [sortKeys, mapLeaves, objectOf, objectOf_jsonList? xs ds hds, reread]
  | .tuple xs, d, h => by
      obtain ⟨ds, hds, rfl⟩ := Option.map_eq_some_iff.mp h
      rw [sortKeys, mapLeaves, objectOf, objectOf_jsonList? xs ds hds, reread]
  | .dict fs, d, h => by
      obtain ⟨ds, hds, rfl⟩ := Option.map_eq_some_iff.mp h
      rw [sortKeys, mapLeaves, objectOf, objectOfFields_sorted, objectOf_jsonFields? fs ds hds, reread]

theorem objectOf_jsonList? : ∀ (xs : List (PyObj K)) (ds : List Json), jsonList? xs = some ds →
    objectOfList (mapLeavesList telling (sortKeysList ds)) = rereadList xs
  | [], ds, h => by
      cases h
      rfl
  | x :: xs, ds, h => by
      obtain ⟨d, hd, h⟩ := Option.bind_eq_some_iff.mp h
      obtain ⟨ds, hds, h⟩ := Option.bind_eq_some_iff.mp h
      cases h
      rw [sortKeysList, mapLeavesList, objectOfList, objectOf_json? x d hd,
        objectOf_jsonList? xs ds hds, rereadList]

theorem objectOf_jsonFields? : ∀ (fs : List (Key K × PyObj K)) (ds : List (String × Json)),
    jsonFields? fs = some ds →
    objectOfFields (mapLeavesFields telling (sortKeysFields ds)) = rereadFields fs
  | [], ds, h => by
      cases h
      rfl
  | (.str k, x) :: fs, ds, h => by
      obtain ⟨d, hd, h⟩ := Option.bind_eq_some_iff.mp h
      obtain ⟨ds, hds, h⟩ := Option.bind_eq_some_iff.mp h
      cases h
      rw [sortKeysFields, mapLeavesFields, objectOfFields, objectOf_json? x d hd,
        objectOf_jsonFields? fs ds hds, rereadFields]
  | (.other _, _) :: _, _, h => by cases h

end

/-- The keys of a `dict` that has a text. -/
theorem keys_of_jsonFields? : ∀ (fs : List (Key K × PyObj K)) (ds : List (String × Json)),
    jsonFields? fs = some ds → Dict.keys fs = (Dict.keys ds).map Key.str
  | [], ds, h => by
      cases h
      rfl
  | (.str k, x) :: fs, ds, h => by
      obtain ⟨d, -, h⟩ := Option.bind_eq_some_iff.mp h
      obtain ⟨ds, hds, h⟩ := Option.bind_eq_some_iff.mp h
      cases h
      show Key.str k :: Dict.keys fs = _
      rw [keys_of_jsonFields? fs ds hds]
      rfl
  | (.other _, _) :: _, _, h => by cases h

theorem keysDistinctFields_iff {fs : List (String × Json)} :
    keysDistinctFields fs ↔ ∀ p ∈ fs, keysDistinct p.2 := by
  induction fs with
  | nil => simp [keysDistinctFields]
  | cons p fs ih => simp [keysDistinctFields, ih]

mutual

theorem keysDistinct_json? : ∀ (v : PyObj K) (d : Json), json? v = some d → Distinct v →
    keysDistinct (sortKeys d)
  | .leaf s, d, h, _ => by
      cases s with
      | bytes => cases h
      | none | bool | int | float | str =>
        cases h
        trivial
  | .list xs, d, h, hv => by
      obtain ⟨ds, hds, rfl⟩ := Option.map_eq_some_iff.mp h
      exact keysDistinct_jsonList? xs ds hds hv
  | .tuple xs, d, h, hv => by
      obtain ⟨ds, hds, rfl⟩ := Option.map_eq_some_iff.mp h
      exact keysDistinct_jsonList? xs ds hds hv
  | .dict fs, d, h, hv => by
      obtain ⟨ds, hds, rfl⟩ := Option.map_eq_some_iff.mp h
      have hperm := List.perm_insertionSort (fun p q : String × Json => p.1 ≤ q.1) (sortKeysFields ds)
      have hnodup := hv.1
      rw [keys_of_jsonFields? fs ds hds] at hnodup
      rw [sortKeys]
      refine ⟨?_, ?_⟩
      · refine ((hperm.map Prod.fst).nodup_iff).mpr ?_
        rw [sortKeysFields_eq, List.map_map]
        exact List.Nodup.of_map Key.str hnodup
      · rw [keysDistinctFields_iff]
        intro p hp
        exact keysDistinctFields_iff.mp (keysDistinct_jsonFields? fs ds hds hv.2) p
          (hperm.mem_iff.mp hp)

theorem keysDistinct_jsonList? : ∀ (xs : List (PyObj K)) (ds : List Json), jsonList? xs = some ds →
    DistinctList xs → keysDistinctList (sortKeysList ds)
  | [], ds, h, _ => by
      cases h
      trivial
  | x :: xs, ds, h, hv => by
      obtain ⟨d, hd, h⟩ := Option.bind_eq_some_iff.mp h
      obtain ⟨ds, hds, h⟩ := Option.bind_eq_some_iff.mp h
      cases h
      exact ⟨keysDistinct_json? x d hd hv.1, keysDistinct_jsonList? xs ds hds hv.2⟩

theorem keysDistinct_jsonFields? : ∀ (fs : List (Key K × PyObj K)) (ds : List (String × Json)),
    jsonFields? fs = some ds → DistinctFields fs → keysDistinctFields (sortKeysFields ds)
  | [], ds, h, _ => by
      cases h
      trivial
  | (.str k, x) :: fs, ds, h, hv => by
      obtain ⟨d, hd, h⟩ := Option.bind_eq_some_iff.mp h
      obtain ⟨ds, hds, h⟩ := Option.bind_eq_some_iff.mp h
      cases h
      exact ⟨keysDistinct_json? x d hd hv.1, keysDistinct_jsonFields? fs ds hds hv.2⟩
  | (.other _, _) :: _, _, h, _ => by cases h

end

/-- A text is read as the object it was written from, reread. -/
theorem loadsRow_of_dumpsRow {host : Host K} (hfloat : FloatText host.floatRepr host.float?)
    {fs : List (Key K × PyObj K)} (hdistinct : Distinct (.dict fs)) {text : String}
    (h : dumpsRow host (.dict fs) = .ok text) : loadsRow host text = .ok (reread (.dict fs)) := by
  obtain ⟨d, hd, -, rfl⟩ := dumpsRow_ok_iff.mp h
  have hobject := objectOf_json? _ d hd
  have hkeys := keysDistinct_json? _ d hd hdistinct
  obtain ⟨ds, -, rfl⟩ := Option.map_eq_some_iff.mp hd
  unfold loadsRow
  rw [jsonLoads?_jsonDumps hfloat jsonEscaping hkeys]
  rw [← hobject]
  rfl

/-!
## Artifacts and their texts
-/

variable {keyStr : K → String}

/-! ## What stays as it is -/

/-- An object whose text is read as the object. -/
structure Stays (v : PyObj K) : Prop where
  same : reread v = v
  distinct : Distinct v

/-- A where clause that comes back: it is read as it stands in the text. -/
structure StandsAsIs (keyStr : K → String) (v : PyObj K) : Prop where
  listed : Listed keyStr v
  fixed : Fixed v
  told : Told v

/-- A value that comes back. -/
structure ComesBack (keyStr : K → String) (v : PyObj K) : Prop where
  listed : Listed keyStr v
  kept : Kept v
  told : Told v

theorem insertionSort_of_listed {fs : List (Key K × PyObj K)} (hf : FixedFields fs)
    (hl : fs.Pairwise fun p q => p.1.text keyStr ≤ q.1.text keyStr) : fs.insertionSort keyLe = fs := by
  refine List.Pairwise.insertionSort_eq (hl.imp_of_mem fun {p q} hp hq hle => ?_)
  obtain ⟨k, hk⟩ := (fixedFields_iff.mp hf p hp).1
  obtain ⟨l, hl⟩ := (fixedFields_iff.mp hf q hq).1
  unfold keyLe
  rw [hk, hl] at hle ⊢
  exact hle

mutual

theorem stays_of_fixed : ∀ v : PyObj K, Listed keyStr v → Fixed v → Told v → Stays v
  | .leaf s, _, _, ht => by
      cases s with
      | float x => exact ⟨congrArg (fun y => PyObj.leaf (.float y)) ht, trivial⟩
      | none | bool | int | str | bytes => exact ⟨rfl, trivial⟩
  | .list xs, hl, hf, ht => by
      obtain ⟨hsame, hdistinct⟩ := stays_of_fixedList xs hl hf ht
      exact ⟨by rw [reread, hsame], hdistinct⟩
  | .tuple _, _, hf, _ => by cases hf
  | .dict fs, hl, hf, ht => by
      obtain ⟨hsame, hdistinct⟩ := stays_of_fixedFields fs hl.2.2 hf ht
      exact ⟨by rw [reread, hsame, insertionSort_of_listed hf hl.2.1], hl.1, hdistinct⟩

theorem stays_of_fixedList : ∀ xs : List (PyObj K), ListedAll keyStr xs → FixedList xs →
    ToldList xs → rereadList xs = xs ∧ DistinctList xs
  | [], _, _, _ => ⟨rfl, trivial⟩
  | x :: xs, hl, hf, ht => by
      obtain ⟨hsame, hdistinct⟩ := stays_of_fixed x hl.1 hf.1 ht.1
      obtain ⟨hsames, hdistincts⟩ := stays_of_fixedList xs hl.2 hf.2 ht.2
      exact ⟨by rw [rereadList, hsame, hsames], hdistinct, hdistincts⟩

theorem stays_of_fixedFields : ∀ fs : List (Key K × PyObj K), ListedFields keyStr fs →
    FixedFields fs → ToldFields fs → rereadFields fs = fs ∧ DistinctFields fs
  | [], _, _, _ => ⟨rfl, trivial⟩
  | (.str k, x) :: fs, hl, hf, ht => by
      obtain ⟨hsame, hdistinct⟩ := stays_of_fixed x hl.1 hf.1 ht.1
      obtain ⟨hsames, hdistincts⟩ := stays_of_fixedFields fs hl.2 hf.2 ht.2
      exact ⟨by rw [rereadFields, hsame, hsames], hdistinct, hdistincts⟩
  | (.other _, _) :: _, _, hf, _ => by cases hf

end

variable [DecidableEq K]

mutual

/-- What is written of a value that is kept stays. -/
theorem stays_toJsonable : ∀ v : PyObj K, Listed keyStr v → Kept v → Told v →
    Stays (toJsonable keyStr v)
  | .leaf s, _, _, ht => by
      cases s with
      | float x => exact ⟨congrArg (fun y => PyObj.leaf (.float y)) ht, trivial⟩
      | bytes raw => exact ⟨rfl, List.nodup_singleton _, trivial, trivial⟩
      | none | bool | int | str => exact ⟨rfl, trivial⟩
  | .list xs, hl, hk, ht => by
      obtain ⟨hsame, hdistinct⟩ := stays_toJsonableList xs hl hk ht
      exact ⟨by rw [Support.toJsonable, reread, hsame], hdistinct⟩
  | .tuple _, _, hk, _ => by cases hk
  | .dict fs, hl, hk, ht => by
      rw [toJsonable_of_fixed (.dict fs) hl hk.2]
      exact stays_of_fixed (.dict fs) hl hk.2 ht

theorem stays_toJsonableList : ∀ xs : List (PyObj K), ListedAll keyStr xs → KeptList xs →
    ToldList xs → rereadList (toJsonableList keyStr xs) = toJsonableList keyStr xs ∧
      DistinctList (toJsonableList keyStr xs)
  | [], _, _, _ => ⟨rfl, trivial⟩
  | x :: xs, hl, hk, ht => by
      obtain ⟨hsame, hdistinct⟩ := stays_toJsonable x hl.1 hk.1 ht.1
      obtain ⟨hsames, hdistincts⟩ := stays_toJsonableList xs hl.2 hk.2 ht.2
      exact ⟨by rw [Support.toJsonableList, rereadList, hsame, hsames], hdistinct, hdistincts⟩

end

theorem ComesBack.stays {v : PyObj K} (h : ComesBack keyStr v) : Stays (toJsonable keyStr v) :=
  stays_toJsonable v h.listed h.kept h.told

theorem ComesBack.fromJsonable {v : PyObj K} (h : ComesBack keyStr v) :
    fromJsonable (toJsonable keyStr v) = .ok v := fromJsonable_toJsonable v h.listed h.kept

theorem StandsAsIs.stays {v : PyObj K} (h : StandsAsIs keyStr v) :
    toJsonable keyStr v = v ∧ Stays v :=
  ⟨toJsonable_of_fixed v h.listed h.fixed, stays_of_fixed v h.listed h.fixed h.told⟩

omit [DecidableEq K] in
theorem distinctList_iff {xs : List (PyObj K)} : DistinctList xs ↔ ∀ x ∈ xs, Distinct x := by
  induction xs with
  | nil => simp [DistinctList]
  | cons x xs ih => simp [DistinctList, ih]

omit [DecidableEq K] in
theorem Stays.list {xs : List (PyObj K)} (h : ∀ x ∈ xs, Stays x) : Stays (.list xs) where
  same := by
    rw [reread, rereadList_eq, List.map_congr_left fun x hx => (h x hx).same, List.map_id']
  distinct := distinctList_iff.mpr fun x hx => (h x hx).distinct

omit [DecidableEq K] in
theorem Stays.list_same {xs : List (PyObj K)} (h : Stays (.list xs)) : rereadList xs = xs :=
  PyObj.list.inj h.same

omit [DecidableEq K] in
theorem Stays.list_distinct {xs : List (PyObj K)} (h : Stays (.list xs)) : DistinctList xs :=
  h.distinct

omit [DecidableEq K] in
theorem stays_texts (texts : List String) : Stays (.list (texts.map str) : PyObj K) := by
  refine Stays.list fun x hx => ?_
  obtain ⟨s, -, rfl⟩ := List.mem_map.mp hx
  exact ⟨rfl, trivial⟩

theorem stays_items {items : Items K} (h : ∀ p ∈ items, ComesBack keyStr p.2) :
    Stays (itemsToJsonable keyStr items) := by
  refine Stays.list fun x hx => ?_
  obtain ⟨p, hp, rfl⟩ := List.mem_map.mp hx
  refine Stays.list fun y hy => ?_
  simp only [List.mem_cons, List.not_mem_nil, or_false] at hy
  rcases hy with rfl | rfl
  · exact ⟨rfl, trivial⟩
  · exact (h p hp).stays

theorem stays_values {values : List (PyObj K)} (h : ∀ v ∈ values, ComesBack keyStr v) :
    Stays (.list (values.map (toJsonable keyStr))) := by
  refine Stays.list fun x hx => ?_
  obtain ⟨v, hv, rfl⟩ := List.mem_map.mp hx
  exact (h v hv).stays

theorem restoreItems {items : Items K} (h : ∀ p ∈ items, ComesBack keyStr p.2) :
    mapOk (restoreItem keyStr) items = .ok items :=
  mapOk_self fun p hp => restoreItem_of_kept (h p hp).listed (h p hp).kept

theorem readRow_values {values : List (PyObj K)} (h : ∀ v ∈ values, ComesBack keyStr v) :
    readRow (.list (values.map (toJsonable keyStr))) = .ok values := by
  show mapOk fromJsonable (values.map (toJsonable keyStr)) = _
  rw [mapOk_comp]
  exact mapOk_self fun v hv => (h v hv).fromJsonable

/-! ## Records -/

/-- The fields of a record, as they come from a text. -/
def recordOf (fields : List (String × PyObj K)) : List (Key K × PyObj K) :=
  (rereadFields (fields.map fun p => (.str p.1, p.2))).insertionSort keyLe

omit [DecidableEq K] in
theorem reread_row (fields : List (String × PyObj K)) : reread (row fields) = .dict (recordOf fields) :=
  rfl

omit [DecidableEq K] in
theorem recordOf_perm (fields : List (String × PyObj K)) :
    (recordOf fields).Perm (fields.map fun p => (.str p.1, reread p.2)) := by
  refine (List.perm_insertionSort _ _).trans (.of_eq ?_)
  rw [rereadFields_eq, List.map_map]
  rfl

theorem get?_row (fields : List (String × PyObj K)) (key : String) :
    Dict.get? (fields.map fun p => ((.str p.1 : Key K), reread p.2)) (.str key) =
      (Dict.get? fields key).map reread := by
  induction fields with
  | nil => rfl
  | cons p fields ih =>
    rw [List.map_cons, Dict.get?_cons, Dict.get?_cons, ih]
    by_cases hkey : key = p.1
    · rw [if_pos (congrArg Key.str hkey), if_pos hkey]
      rfl
    · rw [if_neg (fun h => hkey (Key.str.inj h)), if_neg hkey]

/-- The order of the fields does not matter. -/
theorem get?_recordOf {fields : List (String × PyObj K)} (h : (fields.map Prod.fst).Nodup)
    (key : String) : get? (recordOf fields) key = (Dict.get? fields key).map reread := by
  have hnodup : (Dict.keys (recordOf fields)).Nodup := by
    refine (((recordOf_perm fields).map Prod.fst).nodup_iff).mpr ?_
    rw [List.map_map, show (Prod.fst ∘ fun p : String × PyObj K => ((.str p.1 : Key K), reread p.2)) =
      Key.str ∘ Prod.fst from rfl, ← List.map_map]
    exact h.map fun _ _ => Key.str.inj
  unfold get?
  rw [Dict.get?_perm (recordOf_perm fields) hnodup, get?_row]

theorem item_recordOf {fields : List (String × PyObj K)} (h : (fields.map Prod.fst).Nodup)
    (key : String) : item (recordOf fields) key =
      match Dict.get? fields key with
      | some v => .ok (reread v)
      | none => .error (.keyError key) := by
  unfold item
  rw [get?_recordOf h]
  cases Dict.get? fields key <;> rfl

/-- The fields of a large record are found by their places, without a look at the order. -/
theorem reread_row_at {fields : List (String × PyObj K)} (h : (fields.map Prod.fst).Nodup) :
    ∃ fs, reread (row fields) = .dict fs ∧
      ∀ (n : Nat) {key : String} {v : PyObj K}, fields[n]? = some (key, v) →
        get? fs key = some (reread v) := by
  refine ⟨recordOf fields, rfl, fun n {key v} hn => ?_⟩
  rw [get?_recordOf h, (Dict.get?_eq_some_iff h).mpr (List.mem_of_getElem? hn)]
  rfl

omit [DecidableEq K] in
theorem distinct_row {fields : List (String × PyObj K)} (h : (fields.map Prod.fst).Nodup)
    (hvalues : ∀ p ∈ fields, Distinct p.2) : Distinct (row fields) := by
  refine ⟨?_, ?_⟩
  · unfold Dict.keys
    rw [List.map_map, show (Prod.fst ∘ fun p : String × PyObj K => ((.str p.1 : Key K), p.2)) =
      Key.str ∘ Prod.fst from rfl, ← List.map_map]
    exact h.map fun _ _ => Key.str.inj
  · clear h
    induction fields with
    | nil => trivial
    | cons p fields ih =>
      rw [List.forall_mem_cons] at hvalues
      exact ⟨hvalues.1, ih hvalues.2⟩

/-!
## Receipts and traces
-/

/-! ## Receipts -/

theorem witnessCaptureFromDict_reread {c : WitnessCapture K} (h : ∀ t ∈ c.terms, ComesBack keyStr t) :
    witnessCaptureFromDict (reread (c.toDict keyStr)) = c.restore keyStr := by
  have hterms := (stays_values h).list_same
  unfold witnessCaptureFromDict WitnessCapture.toDict WitnessCapture.restore
  rw [reread_row]
  have hnames : (Dict.keys (recordOf [("witness_ref", str c.witnessRef), ("kind", str c.kind),
      ("predicate_id", str c.predicateId),
      ("terms", .list (c.terms.map (Support.toJsonable keyStr)))])).Perm
        [.str "witness_ref", .str "kind", .str "predicate_id", .str "terms"] :=
    (recordOf_perm _).map Prod.fst
  simp only [mapping, ok_bind]
  rw [require_of_true (decide_eq_true hnames), ok_bind]
  simp (disch := simp) [item_recordOf, Dict.get?, hterms, toJsonableList_eq_map, text, str, reread]

theorem predWitnessFromDict_reread {w : PredWitness K} {version : Option Int}
    (hversion : w.witnesses.isSome = version.isSome)
    (h : ∀ captures, w.witnesses = some captures → ∀ c ∈ captures, ∀ t ∈ c.terms, ComesBack keyStr t) :
    predWitnessFromDict (reread (w.toDict keyStr version)) = w.restore keyStr := by
  obtain ⟨key, ids, witnesses⟩ := w
  have hids := (@stays_texts K ids).list_same
  unfold predWitnessFromDict PredWitness.toDict PredWitness.restore
  rw [reread_row]
  cases version with
  | none =>
    cases witnesses with
    | some captures => cases hversion
    | none =>
      simp (disch := simp) [mapping, item_recordOf, get?_recordOf, Dict.get?, readWitnesses, hids,
        elements, mapOk_text, text, str, reread, restoreWitnesses]
  | some version =>
    cases witnesses with
    | none => cases hversion
    | some captures =>
      have hread : mapOk witnessCaptureFromDict
          (rereadList (captures.map (WitnessCapture.toDict keyStr))) =
          mapOk (WitnessCapture.restore keyStr) captures := by
        rw [rereadList_eq, mapOk_comp, mapOk_comp]
        exact mapOk_congr fun c hc => witnessCaptureFromDict_reread (h captures rfl c hc)
      simp (disch := simp) [mapping, item_recordOf, get?_recordOf, Dict.get?, readWitnesses, hids,
        elements, mapOk_text, text, str, reread, restoreWitnesses, hread]

theorem nonFactStepFromDict_reread {s : NonFactStep K} (h : ∀ p ∈ s.details, ComesBack keyStr p.2) :
    nonFactStepFromDict (reread (s.toDict keyStr)) = s.restore keyStr := by
  have hdetails := (stays_items h).same
  unfold nonFactStepFromDict NonFactStep.toDict NonFactStep.restore
  rw [reread_row]
  simp (disch := simp) [mapping, item_recordOf, Dict.get?, hdetails, readItems_itemsToJsonable, text,
    str, reread]

omit [DecidableEq K] in
theorem reread_optional (s : Option String) :
    reread (Support.optional s : PyObj K) = Support.optional s := by
  cases s <;> rfl

theorem ruleRefEdgeFromDict_reread (e : RuleRefEdge) :
    ruleRefEdgeFromDict (reread (e.toDict : PyObj K)) = (do e.postInit; .ok e) := by
  unfold ruleRefEdgeFromDict RuleRefEdge.toDict
  rw [reread_row]
  simp (disch := simp) [mapping, item_recordOf, get?_recordOf, Dict.get?, text, str, reread,
    reread_optional, optionalText_optional]

/-- What is read of the text of a receipt is what is read of its `dict`. -/
theorem supportArtifactFromDict_reread {r : ProofReceipt K}
    (hversion : ∀ w ∈ r.predWitnesses, w.witnesses.isSome = r.witnessCaptureVersion.isSome)
    (h : r.All (ComesBack keyStr)) :
    supportArtifactFromDict (reread (supportArtifactToDict keyStr r)) = r.restore keyStr := by
  have hitems := (stays_items h.bindings).same
  have hrefs := (@stays_texts K r.ruleRefs).list_same
  have hrows : mapOk predWitnessFromDict
      (rereadList (r.predWitnesses.map (PredWitness.toDict keyStr r.witnessCaptureVersion))) =
        mapOk (PredWitness.restore keyStr) r.predWitnesses := by
    rw [rereadList_eq, mapOk_comp, mapOk_comp]
    exact mapOk_congr fun w hw => predWitnessFromDict_reread (hversion w hw) (h.terms w hw)
  have hsteps : mapOk nonFactStepFromDict
      (rereadList (r.nonFactSteps.map (NonFactStep.toDict keyStr))) =
        mapOk (NonFactStep.restore keyStr) r.nonFactSteps := by
    rw [rereadList_eq, mapOk_comp, mapOk_comp]
    exact mapOk_congr fun s hs => nonFactStepFromDict_reread (h.details s hs)
  have hedges : mapOk ruleRefEdgeFromDict
      (rereadList (r.ruleRefEdges.map (RuleRefEdge.toDict (K := K)))) =
      (do each RuleRefEdge.postInit r.ruleRefEdges; .ok r.ruleRefEdges) := by
    rw [rereadList_eq, mapOk_comp, mapOk_comp, ← mapOk_check]
    exact mapOk_congr fun e _ => ruleRefEdgeFromDict_reread e
  unfold supportArtifactFromDict supportArtifactToDict ProofReceipt.restore
  rw [reread_row]
  cases hcase : r.witnessCaptureVersion with
  | none =>
    rw [hcase] at hrows
    simp (disch := simp) [mapping, item_recordOf, get?_recordOf, Dict.get?, elementsOf, elements,
      mapOk_text, text, str, readItems_itemsToJsonable, reread, hitems, hrefs, hrows, hsteps, hedges,
      captureVersion]
  | some version =>
    rw [hcase] at hrows
    simp (disch := simp) [mapping, item_recordOf, get?_recordOf, Dict.get?, elementsOf, elements,
      mapOk_text, text, str, readItems_itemsToJsonable, reread, hitems, hrefs, hrows, hsteps, hedges,
      captureVersion]

omit [DecidableEq K] in
@[simp] theorem distinct_str (s : String) : Distinct (str s : PyObj K) := trivial

omit [DecidableEq K] in
theorem distinct_optional (s : Option String) : Distinct (Support.optional s : PyObj K) := by
  cases s <;> trivial

omit [DecidableEq K] in
/-- A list of records. -/
theorem distinct_rows {A : Type} {toDict : A → PyObj K} {rows : List A}
    (h : ∀ a ∈ rows, Distinct (toDict a)) : DistinctList (rows.map toDict) := by
  refine distinctList_iff.mpr fun x hx => ?_
  obtain ⟨a, ha, rfl⟩ := List.mem_map.mp hx
  exact h a ha

theorem distinct_receipt {r : ProofReceipt K} (h : r.All (ComesBack keyStr)) :
    Distinct (supportArtifactToDict keyStr r) := by
  have hcaptures : ∀ w ∈ r.predWitnesses, ∀ c ∈ w.witnesses.getD [], Distinct (c.toDict keyStr) := by
    intro w hw c hc
    cases hwitnesses : w.witnesses with
    | none =>
      rw [hwitnesses] at hc
      cases hc
    | some captures =>
      rw [hwitnesses] at hc
      have hterms := (stays_values (h.terms w hw captures hwitnesses c hc)).list_distinct
      exact distinct_row (by simp) (by simp [hterms, Distinct])
  have hrows : ∀ w ∈ r.predWitnesses, Distinct (w.toDict keyStr r.witnessCaptureVersion) := by
    intro w hw
    have hids := (@stays_texts K w.asrtIds).list_distinct
    unfold PredWitness.toDict
    cases r.witnessCaptureVersion with
    | none => exact distinct_row (by simp) (by simp [hids, Distinct])
    | some version =>
      exact distinct_row (by simp) (by simp [hids, Distinct, distinct_rows (hcaptures w hw)])
  have hsteps : ∀ s ∈ r.nonFactSteps, Distinct (s.toDict keyStr) := by
    intro s hs
    have hdetails := (stays_items (h.details s hs)).distinct
    exact distinct_row (by simp) (by simp [hdetails])
  have hedges : ∀ e ∈ r.ruleRefEdges, Distinct (e.toDict : PyObj K) := by
    intro e _
    exact distinct_row (by simp) (by simp [distinct_optional])
  have hitems := (stays_items h.bindings).distinct
  have hrefs := (@stays_texts K r.ruleRefs).list_distinct
  unfold supportArtifactToDict
  cases hversion : r.witnessCaptureVersion with
  | none =>
    rw [hversion] at hrows
    exact distinct_row (by simp) (by simp [hitems, hrefs, distinct_rows hrows, distinct_rows hsteps,
      distinct_rows hedges, Distinct])
  | some version =>
    rw [hversion] at hrows
    exact distinct_row (by simp) (by simp [hitems, hrefs, distinct_rows hrows, distinct_rows hsteps,
      distinct_rows hedges, Distinct])

/-- A receipt that comes back from its text, if it has one. -/
structure PlainReceipt (keyStr : K → String) (r : ProofReceipt K) : Prop where
  accepted : r.Accepted
  values : r.All (ComesBack keyStr)

omit [DecidableEq K] in
/-- An artifact that is read back from its text. -/
theorem survives_of_reread {A : Type} {host : Host K} {codec : ArtifactCodec K A}
    (hfloat : FloatText host.floatRepr host.float?) {a : A} {fields : List (String × PyObj K)}
    (hrow : codec.toDict a = row fields) (hdistinct : Distinct (codec.toDict a))
    (hread : codec.fromDict (reread (codec.toDict a)) = .ok a) {text : String}
    (htext : dumpsRow host (codec.toDict a) = .ok text) : codec.Survives host a := by
  refine ⟨text, _, htext, ?_, hread⟩
  rw [hrow] at hdistinct htext ⊢
  exact loadsRow_of_dumpsRow hfloat hdistinct htext

theorem PlainReceipt.survives {host : Host K} (hfloat : FloatText host.floatRepr host.float?)
    {r : ProofReceipt K} (h : PlainReceipt host.keyStr r) {text : String}
    (htext : dumpsRow host ((supportCodec host).toDict r) = .ok text) :
    (supportCodec host).Survives host r := by
  have hread : supportArtifactFromDict (reread (supportArtifactToDict host.keyStr r)) = .ok r := by
    rw [supportArtifactFromDict_reread (witnesses_isSome h.accepted.receipt) h.values]
    exact restore_of_kept h.accepted
      ⟨fun p hp => (h.values.bindings p hp).listed, fun s hs p hp => (h.values.details s hs p hp).listed,
        fun w hw cs hcs c hc t ht => (h.values.terms w hw cs hcs c hc t ht).listed⟩
      ⟨fun p hp => (h.values.bindings p hp).kept, fun s hs p hp => (h.values.details s hs p hp).kept,
        fun w hw cs hcs c hc t ht => (h.values.terms w hw cs hcs c hc t ht).kept⟩
  exact survives_of_reread hfloat rfl (distinct_receipt h.values) hread htext

/-! ## Traces -/

/-- An invocation that comes back. -/
structure PlainInvocation (keyStr : K → String) (i : RuleTraceInvocation K) : Prop where
  accepted : i.postInit = .ok ()
  witnesses : ∀ w ∈ i.predWitnesses, w.postInit = .ok ()
  steps : ∀ s ∈ i.nonFactSteps, s.postInit = .ok ()
  links : ∀ l ∈ i.rulerefLinks, l.postInit = .ok ()
  originalWhere : StandsAsIs keyStr i.originalWhere
  rewrittenWhere : StandsAsIs keyStr i.rewrittenWhere
  bindings : ∀ binding ∈ i.bindings, ∀ p ∈ binding, ComesBack keyStr p.2
  outputRows : ∀ r ∈ i.outputRows, ∀ v ∈ r, ComesBack keyStr v
  details : ∀ s ∈ i.nonFactSteps, ∀ p ∈ s.details, ComesBack keyStr p.2
  /-- No status of an older version. -/
  statuses : ∀ s ∈ i.nonFactSteps, s.status ∉ Dict.keys legacyStatusMap

/-- A trace that comes back from its text, if it has one. -/
structure PlainTrace (keyStr : K → String) (a : RuleTraceArtifact K) : Prop where
  accepted : a.postInit = .ok ()
  invocations : ∀ i ∈ a.invocations, PlainInvocation keyStr i
  rootRows : ∀ r ∈ a.rootRows, ∀ v ∈ r, ComesBack keyStr v

theorem stays_rows {rows : List (List (PyObj K))} (h : ∀ r ∈ rows, ∀ v ∈ r, ComesBack keyStr v) :
    Stays (rowsToJsonable keyStr rows) := by
  refine Stays.list fun x hx => ?_
  obtain ⟨r, hr, rfl⟩ := List.mem_map.mp hx
  exact stays_values (h r hr)

theorem readRows_rows {rows : List (List (PyObj K))} (h : ∀ r ∈ rows, ∀ v ∈ r, ComesBack keyStr v) :
    readRows (rowsToJsonable keyStr rows) = .ok rows := by
  show mapOk readRow (rows.map _) = _
  rw [mapOk_comp]
  exact mapOk_self fun r hr => readRow_values (h r hr)

theorem ruleTracePredWitnessFromDict_reread {w : RuleTracePredWitness} (h : w.postInit = .ok ()) :
    ruleTracePredWitnessFromDict (reread (w.toDict : PyObj K)) = .ok w := by
  have hids := (@stays_texts K w.asrtIds).list_same
  unfold ruleTracePredWitnessFromDict RuleTracePredWitness.toDict
  rw [reread_row]
  simp (disch := simp) [subscripted, mapping, item_recordOf, Dict.get?, hids, elements, mapOk_text,
    number, text, str, reread, h]

theorem ruleTraceNonFactStepFromDict_reread {s : RuleTraceNonFactStep K} (h : s.postInit = .ok ())
    (hdetails : ∀ p ∈ s.details, ComesBack keyStr p.2) (hstatus : s.status ∉ Dict.keys legacyStatusMap) :
    ruleTraceNonFactStepFromDict (reread (s.toDict keyStr)) = .ok s := by
  have hsame := (stays_items hdetails).same
  have hnormal : normalizeNonFactStatus s.status = s.status := by
    unfold normalizeNonFactStatus
    rw [Dict.get?_eq_none_iff.mpr hstatus]
    rfl
  unfold ruleTraceNonFactStepFromDict RuleTraceNonFactStep.toDict
  rw [reread_row]
  simp (disch := simp) [subscripted, mapping, item_recordOf, Dict.get?, hsame,
    readItems_itemsToJsonable, restoreItems hdetails, number, text, str, reread, hnormal, h]

theorem ruleTraceRuleRefLinkFromDict_reread {l : RuleTraceRuleRefLink} (h : l.postInit = .ok ()) :
    ruleTraceRuleRefLinkFromDict (reread (l.toDict : PyObj K)) = .ok l := by
  unfold ruleTraceRuleRefLinkFromDict RuleTraceRuleRefLink.toDict
  rw [reread_row]
  simp (disch := simp) [subscripted, mapping, item_recordOf, Dict.get?, text, str, reread, h]

omit [DecidableEq K] in
/-- Records that are read back one by one are read back. -/
theorem mapOk_reread {A : Type} {fromDict : PyObj K → Except SupportErr A} {toDict : A → PyObj K}
    {rows : List A} (h : ∀ a ∈ rows, fromDict (reread (toDict a)) = .ok a) :
    mapOk fromDict (rereadList (rows.map toDict)) = .ok rows := by
  rw [rereadList_eq, mapOk_comp, mapOk_comp]
  exact mapOk_self h

/-- A rule, named with its version. -/
def ruleFields (ruleId version : String) : List (String × PyObj K) :=
  [("rule_id", str ruleId), ("version", str version)]

/-- The fields of an invocation. -/
def RuleTraceInvocation.fields (keyStr : K → String) (i : RuleTraceInvocation K) :
    List (String × PyObj K) :=
  [("invocation_id", str i.invocationId),
    ("parent_invocation_id", Support.optional i.parentInvocationId),
    ("rule", row (ruleFields i.ruleId i.version)),
    ("memo_hit", .leaf (.bool i.memoHit)),
    ("memo_source_invocation_id", Support.optional i.memoSourceInvocationId),
    ("original_where", Support.toJsonable keyStr i.originalWhere),
    ("rewritten_where", Support.toJsonable keyStr i.rewrittenWhere),
    ("bindings", .list (i.bindings.map (itemsToJsonable keyStr))),
    ("output_rows", rowsToJsonable keyStr i.outputRows),
    ("pred_witnesses", .list (i.predWitnesses.map (·.toDict))),
    ("non_fact_steps", .list (i.nonFactSteps.map (·.toDict keyStr))),
    ("ruleref_links", .list (i.rulerefLinks.map (·.toDict)))]

omit [DecidableEq K] in
theorem invocation_toDict [DecidableEq K] (i : RuleTraceInvocation K) :
    i.toDict keyStr = row (i.fields keyStr) := rfl

theorem ruleTraceInvocationFromDict_reread {i : RuleTraceInvocation K} (h : PlainInvocation keyStr i) :
    ruleTraceInvocationFromDict (reread (i.toDict keyStr)) = .ok i := by
  have hwitnesses := mapOk_reread (K := K) fun w hw => ruleTracePredWitnessFromDict_reread (h.witnesses w hw)
  have hsteps := mapOk_reread fun s hs =>
    ruleTraceNonFactStepFromDict_reread (h.steps s hs) (h.details s hs) (h.statuses s hs)
  have hlinks := mapOk_reread (K := K) fun l hl => ruleTraceRuleRefLinkFromDict_reread (h.links l hl)
  have hbindings : mapOk (readItems "binding keys must be variable names prefixed with '$'")
      (rereadList (i.bindings.map (itemsToJsonable keyStr))) = .ok i.bindings := by
    refine mapOk_reread fun binding hbinding => ?_
    rw [(stays_items (h.bindings binding hbinding)).same, readItems_itemsToJsonable]
    exact restoreItems (h.bindings binding hbinding)
  have hrows := (stays_rows h.outputRows).same
  obtain ⟨horiginal, hstays⟩ := h.originalWhere.stays
  obtain ⟨hrewritten, hstays'⟩ := h.rewrittenWhere.stays
  have hkeys : ((i.fields keyStr).map Prod.fst).Nodup := by
    simp [RuleTraceInvocation.fields]
  have hrule : ((ruleFields i.ruleId i.version : List (String × PyObj K)).map Prod.fst).Nodup := by
    simp [ruleFields]
  obtain ⟨fs, hfs, hat⟩ := reread_row_at hkeys
  obtain ⟨rule, hruleFs, hruleAt⟩ := reread_row_at hrule
  unfold ruleTraceInvocationFromDict
  rw [invocation_toDict, hfs]
  simp only [subscripted, mapping, ok_bind, elementsOf, item, hat 0 rfl, hat 1 rfl, hat 2 rfl,
    hat 3 rfl, hat 4 rfl, hat 5 rfl, hat 6 rfl, hat 7 rfl, hat 8 rfl, hat 9 rfl, hat 10 rfl, hat 11 rfl,
    hruleFs, hruleAt 0 rfl, hruleAt 1 rfl, Option.getD_some, reread_optional, horiginal, hrewritten,
    hstays.same, hstays'.same, hrows]
  simp [elements, optionalText_optional, flag, text, str, reread, hbindings,
    readRows_rows h.outputRows, hwitnesses, hsteps, hlinks, h.accepted]

theorem ruleTraceArtifactFromDict_reread {a : RuleTraceArtifact K} (h : PlainTrace keyStr a) :
    ruleTraceArtifactFromDict (reread (ruleTraceArtifactToDict keyStr a)) = .ok a := by
  have hinvocations := mapOk_reread fun i hi => ruleTraceInvocationFromDict_reread (h.invocations i hi)
  have hrows := (stays_rows h.rootRows).same
  have hvars := (@stays_texts K a.selectVars).list_same
  unfold ruleTraceArtifactFromDict ruleTraceArtifactToDict
  rw [reread_row]
  simp (disch := simp) [subscripted, mapping, item_recordOf, Dict.get?, elements, reread_row, text, str,
    reread, hinvocations, hrows, readRows_rows h.rootRows, hvars, mapOk_text, h.accepted]

theorem distinct_invocation {i : RuleTraceInvocation K} (h : PlainInvocation keyStr i) :
    Distinct (i.toDict keyStr) := by
  have hwitnesses : ∀ w ∈ i.predWitnesses, Distinct (w.toDict : PyObj K) := by
    intro w _
    have hids := (@stays_texts K w.asrtIds).list_distinct
    exact distinct_row (by simp) (by simp [hids, Distinct])
  have hsteps : ∀ s ∈ i.nonFactSteps, Distinct (s.toDict keyStr) := by
    intro s hs
    have hdetails := (stays_items (h.details s hs)).distinct
    exact distinct_row (by simp) (by simp [hdetails, Distinct])
  have hlinks : ∀ l ∈ i.rulerefLinks, Distinct (l.toDict : PyObj K) := by
    intro l _
    exact distinct_row (by simp) (by simp)
  have hbindings : ∀ binding ∈ i.bindings, Distinct (itemsToJsonable keyStr binding) :=
    fun binding hbinding => (stays_items (h.bindings binding hbinding)).distinct
  have hrule : Distinct (row [("rule_id", str i.ruleId), ("version", str i.version)] : PyObj K) :=
    distinct_row (by simp) (by simp)
  have hrows := (stays_rows h.outputRows).distinct
  obtain ⟨horiginal, hstays⟩ := h.originalWhere.stays
  obtain ⟨hrewritten, hstays'⟩ := h.rewrittenWhere.stays
  unfold RuleTraceInvocation.toDict
  rw [horiginal, hrewritten]
  exact distinct_row (by simp) (by simp [hrule, hrows, hstays.distinct, hstays'.distinct,
    distinct_rows hbindings, distinct_rows hwitnesses, distinct_rows hsteps, distinct_rows hlinks,
    distinct_optional, Distinct])

theorem distinct_trace {a : RuleTraceArtifact K} (h : PlainTrace keyStr a) :
    Distinct (ruleTraceArtifactToDict keyStr a) := by
  have hinvocations : ∀ i ∈ a.invocations, Distinct (i.toDict keyStr) :=
    fun i hi => distinct_invocation (h.invocations i hi)
  have hrule : Distinct
      (row [("rule_id", str a.rootRuleId), ("version", str a.rootVersion)] : PyObj K) :=
    distinct_row (by simp) (by simp)
  have hrows := (stays_rows h.rootRows).distinct
  have hvars := (@stays_texts K a.selectVars).list_distinct
  exact distinct_row (by simp) (by simp [hrule, hrows, hvars, distinct_rows hinvocations, Distinct])

theorem PlainTrace.survives {host : Host K} (hfloat : FloatText host.floatRepr host.float?)
    {a : RuleTraceArtifact K} (h : PlainTrace host.keyStr a) {text : String}
    (htext : dumpsRow host ((ruleTraceCodec host).toDict a) = .ok text) :
    (ruleTraceCodec host).Survives host a :=
  survives_of_reread hfloat rfl (distinct_trace h) (ruleTraceArtifactFromDict_reread h) htext

end FactGraph.Sidecar
