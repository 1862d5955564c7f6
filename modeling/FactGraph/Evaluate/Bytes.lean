import Mathlib.Logic.Function.Basic
import FactGraph.Db.Texts
import FactGraph.Lib.Calendar
import FactGraph.Protocol.Framing

/-!
# The canonical bytes of evaluation

`application/protocol/evaluate_result.py`: `canonical_bytes_for_evaluate`, which every digest of a
run, a row, a claim or a configuration is taken of.

Kinds that JSON does not have are written as objects of one marked key: a tuple as
`{"__tuple__": […]}`, a date as `{"__date__": …}`, a date with a time as `{"__datetime__": …}`. A
mapping is written as it stands, whatever its keys. So the bytes are those of `Val.meant`, which
takes a mapping that spells a kind for that kind (`canonicalBytes_meant`), and they tell the whole of
a value where no mapping does (`same_of_canonicalBytes`).
-/

namespace FactGraph.Evaluate

open Protocol Store Check JsonText Db Calendar

/-- `ProtocolShapeError`. -/
structure ShapeError where
  message : String
  deriving DecidableEq, Repr

/-- What the digests take from the standard library: SHA-256, `float.__repr__`, and `repr` of a
`dict`. -/
structure Host (V : Type) where
  sha256 : List UInt8 → List UInt8
  floatRepr : F64 → String
  dictRepr : List (String × V) → String

/-- A Python object, as far as `_normalize_for_canonical` looks at its type. A mapping lists each of
its keys once; `other` is an object of a type the encoder does not know. -/
inductive Val where
  | none
  | bool (b : Bool)
  | int (i : Int)
  | float (x : F64)
  | str (s : String)
  | date (d : Date)
  | datetime (t : DateTime)
  | tuple (xs : List Val)
  | list (xs : List Val)
  | mapping (fs : List (String × Val))
  | other (typeName : String)

/-! ## Normalisation -/

mutual

/-- `_normalize_for_canonical`. -/
def normalizeForCanonical : Val → Except ShapeError Json
  | .none => .ok (.leaf .null)
  | .str s => .ok (.leaf (.str s))
  | .bool b => .ok (.leaf (.bool b))
  | .int i => .ok (.leaf (.int i))
  | .float x =>
      if x.isFinite then .ok (.leaf (.float x))
      else .error ⟨"canonical float values must be finite"⟩
  | .datetime t => .ok (.obj [("__datetime__", .leaf (.str t.isoformat))])
  | .date d => .ok (.obj [("__date__", .leaf (.str d.isoformat))])
  | .tuple xs => (normalizeItems xs).map fun ys => .obj [("__tuple__", .arr ys)]
  | .list xs => (normalizeItems xs).map .arr
  | .mapping fs => (normalizeFields fs).map .obj
  | .other typeName => .error ⟨s!"unsupported canonical value type: {typeName}"⟩

def normalizeItems : List Val → Except ShapeError (List Json)
  | [] => .ok []
  | x :: xs => do
      let y ← normalizeForCanonical x
      let ys ← normalizeItems xs
      .ok (y :: ys)

def normalizeFields : List (String × Val) → Except ShapeError (List (String × Json))
  | [] => .ok []
  | (k, x) :: fs => do
      require (k ≠ "") ⟨"canonical mapping keys must be non-empty strings"⟩
      let y ← normalizeForCanonical x
      let gs ← normalizeFields fs
      .ok ((k, y) :: gs)

end

/-- `canonical_bytes_for_evaluate`. -/
def canonicalBytesForEvaluate (host : Host Val) (items : List Val) :
    Except ShapeError (List UInt8) :=
  (normalizeForCanonical (.tuple items)).map fun doc =>
    utf8 (jsonDumps jsonEscaping host.floatRepr (sortKeys doc))

/-! ## What is accepted, and as what it is written -/

mutual

/-- Every float is finite, every key has a character, every type is known. -/
def Val.accepted : Val → Bool
  | .none | .bool _ | .int _ | .str _ | .date _ | .datetime _ => true
  | .float x => x.isFinite
  | .tuple xs | .list xs => acceptedItems xs
  | .mapping fs => acceptedFields fs
  | .other _ => false

def acceptedItems : List Val → Bool
  | [] => true
  | x :: xs => x.accepted && acceptedItems xs

def acceptedFields : List (String × Val) → Bool
  | [] => true
  | (k, x) :: fs => decide (k ≠ "") && (x.accepted && acceptedFields fs)

end

mutual

/-- The document of a value that is accepted. -/
def Val.doc : Val → Json
  | .none | .other _ => .leaf .null
  | .bool b => .leaf (.bool b)
  | .int i => .leaf (.int i)
  | .float x => .leaf (.float x)
  | .str s => .leaf (.str s)
  | .datetime t => .obj [("__datetime__", .leaf (.str t.isoformat))]
  | .date d => .obj [("__date__", .leaf (.str d.isoformat))]
  | .tuple xs => .obj [("__tuple__", .arr (docItems xs))]
  | .list xs => .arr (docItems xs)
  | .mapping fs => .obj (docFields fs)

def docItems : List Val → List Json
  | [] => []
  | x :: xs => x.doc :: docItems xs

def docFields : List (String × Val) → List (String × Json)
  | [] => []
  | (k, x) :: fs => (k, x.doc) :: docFields fs

end

mutual

/-- The documents of `_normalize_for_canonical` are those of the values it accepts. -/
theorem normalize_ok_iff : ∀ (v : Val) {d : Json},
    normalizeForCanonical v = .ok d ↔ v.accepted = true ∧ v.doc = d
  | .none, _ | .bool _, _ | .int _, _ | .str _, _ | .date _, _ | .datetime _, _ => by
      simp [Val.accepted, normalizeForCanonical, Val.doc]
  | .float x, _ => by
      by_cases hx : x.isFinite = true <;> simp [Val.accepted, normalizeForCanonical, Val.doc, hx]
  | .tuple xs, _ => by
      simp [Val.accepted, normalizeForCanonical, Val.doc, map_ok_iff, normalizeItems_ok_iff xs]
  | .list xs, _ => by
      simp [Val.accepted, normalizeForCanonical, Val.doc, map_ok_iff, normalizeItems_ok_iff xs]
  | .mapping fs, _ => by
      simp [Val.accepted, normalizeForCanonical, Val.doc, map_ok_iff, normalizeFields_ok_iff fs]
  | .other _, _ => by simp [Val.accepted, normalizeForCanonical]

theorem normalizeItems_ok_iff : ∀ (xs : List Val) {ds : List Json},
    normalizeItems xs = .ok ds ↔ acceptedItems xs = true ∧ docItems xs = ds
  | [], _ => by simp [normalizeItems, acceptedItems, docItems]
  | x :: xs, _ => by
      simp [normalizeItems, acceptedItems, docItems, bind_ok_iff, normalize_ok_iff x,
        normalizeItems_ok_iff xs, and_assoc]

theorem normalizeFields_ok_iff : ∀ (fs : List (String × Val)) {gs : List (String × Json)},
    normalizeFields fs = .ok gs ↔ acceptedFields fs = true ∧ docFields fs = gs
  | [], _ => by simp [normalizeFields, acceptedFields, docFields]
  | (k, x) :: fs, _ => by
      rw [normalizeFields, bind_unit_ok_iff]
      simp [acceptedFields, docFields, bind_ok_iff, normalize_ok_iff x, normalizeFields_ok_iff fs,
        and_assoc]

end

mutual

/-- The keys of every mapping in order. -/
def Val.sorted : Val → Val
  | .tuple xs => .tuple (sortedItems xs)
  | .list xs => .list (sortedItems xs)
  | .mapping fs => .mapping ((sortedFields fs).insertionSort fun p q => p.1 ≤ q.1)
  | v => v

def sortedItems : List Val → List Val
  | [] => []
  | x :: xs => x.sorted :: sortedItems xs

def sortedFields : List (String × Val) → List (String × Val)
  | [] => []
  | (k, x) :: fs => (k, x.sorted) :: sortedFields fs

end

/-- Equal values of equal kinds. -/
def Val.Same (v w : Val) : Prop := v.sorted = w.sorted

theorem docFields_eq (fs : List (String × Val)) : docFields fs = fs.map fun p => (p.1, p.2.doc) := by
  induction fs with
  | nil => rfl
  | cons p fs ih => rw [docFields, ih, List.map_cons]

mutual

theorem doc_sorted : ∀ v : Val, v.sorted.doc = sortKeys v.doc
  | .none | .bool _ | .int _ | .float _ | .str _ | .other _ => rfl
  | .date _ | .datetime _ => by simp [Val.sorted, Val.doc, sortKeys, sortKeysFields]
  | .tuple xs => by
      simp [Val.sorted, Val.doc, sortKeys, sortKeysFields, docItems_sorted xs]
  | .list xs => by simp [Val.sorted, Val.doc, sortKeys, docItems_sorted xs]
  | .mapping fs => by
      rw [Val.sorted, Val.doc, Val.doc, sortKeys, ← docFields_sorted fs, docFields_eq, docFields_eq]
      congr 1
      exact List.map_insertionSort _ _ _ _ fun _ _ _ _ => Iff.rfl

theorem docItems_sorted : ∀ xs : List Val, docItems (sortedItems xs) = sortKeysList (docItems xs)
  | [] => rfl
  | x :: xs => by
      rw [sortedItems, docItems, docItems, sortKeysList, doc_sorted x, docItems_sorted xs]

theorem docFields_sorted : ∀ fs : List (String × Val),
    docFields (sortedFields fs) = sortKeysFields (docFields fs)
  | [] => rfl
  | (k, x) :: fs => by
      rw [sortedFields, docFields, docFields, sortKeysFields, doc_sorted x, docFields_sorted fs]

end

/-! ## Mappings that spell a kind -/

/-- The mapping is written as a tuple, a date or a date with a time is. -/
def Spells (fs : List (String × Val)) : Prop :=
  (∃ xs, fs = [("__tuple__", .list xs)]) ∨
    (∃ d : Date, fs = [("__date__", .str d.isoformat)]) ∨
      ∃ t : DateTime, fs = [("__datetime__", .str t.isoformat)]

mutual

/-- No mapping of the value spells a kind. -/
def Val.Plain : Val → Prop
  | .tuple xs | .list xs => PlainItems xs
  | .mapping fs => ¬ Spells fs ∧ PlainFields fs
  | _ => True

def PlainItems : List Val → Prop
  | [] => True
  | x :: xs => x.Plain ∧ PlainItems xs

def PlainFields : List (String × Val) → Prop
  | [] => True
  | (_, x) :: fs => x.Plain ∧ PlainFields fs

end

/-- The value that a mapping spells. -/
noncomputable def spelled? : List (String × Val) → Option Val
  | [("__tuple__", .list xs)] => some (.tuple xs)
  | [("__date__", .str s)] => (Function.partialInv Date.isoformat s).map .date
  | [("__datetime__", .str s)] => (Function.partialInv DateTime.isoformat s).map .datetime
  | _ => none

/-- What a mapping spells is written as the mapping is. -/
theorem spelled?_cases {fs : List (String × Val)} {v : Val} (h : spelled? fs = some v) :
    (∃ xs, fs = [("__tuple__", .list xs)] ∧ v = .tuple xs) ∨
      (∃ d : Date, fs = [("__date__", .str d.isoformat)] ∧ v = .date d) ∨
        ∃ t : DateTime, fs = [("__datetime__", .str t.isoformat)] ∧ v = .datetime t := by
  unfold spelled? at h
  split at h
  · exact .inl ⟨_, rfl, (Option.some.inj h).symm⟩
  · obtain ⟨d, hd, rfl⟩ := Option.map_eq_some_iff.mp h
    have hiso := (Date.isoformat_injective.isPartialInv d _).mp hd
    exact .inr (.inl ⟨d, by rw [hiso], rfl⟩)
  · obtain ⟨t, ht, rfl⟩ := Option.map_eq_some_iff.mp h
    have hiso := (DateTime.isoformat_injective.isPartialInv t _).mp ht
    exact .inr (.inr ⟨t, by rw [hiso], rfl⟩)
  · cases h

theorem spelled?_date (d : Date) :
    spelled? [("__date__", .str d.isoformat)] = some (.date d) := by
  have hinv := (Date.isoformat_injective.isPartialInv d _).mpr rfl
  simp [spelled?, hinv]

theorem spelled?_datetime (t : DateTime) :
    spelled? [("__datetime__", .str t.isoformat)] = some (.datetime t) := by
  have hinv := (DateTime.isoformat_injective.isPartialInv t _).mpr rfl
  simp [spelled?, hinv]

theorem spelled?_eq_none_iff {fs : List (String × Val)} : spelled? fs = none ↔ ¬ Spells fs := by
  constructor
  · intro h hspells
    rcases hspells with ⟨xs, rfl⟩ | ⟨d, rfl⟩ | ⟨t, rfl⟩
    · cases h
    · simp [spelled?_date] at h
    · simp [spelled?_datetime] at h
  · intro h
    cases hv : spelled? fs with
    | none => rfl
    | some v =>
      rcases spelled?_cases hv with ⟨xs, rfl, -⟩ | ⟨d, rfl, -⟩ | ⟨t, rfl, -⟩
      · exact absurd (.inl ⟨xs, rfl⟩) h
      · exact absurd (.inr (.inl ⟨d, rfl⟩)) h
      · exact absurd (.inr (.inr ⟨t, rfl⟩)) h

mutual

/-- The value, with what its mappings spell in their place. -/
noncomputable def Val.meant : Val → Val
  | .tuple xs => .tuple (meantItems xs)
  | .list xs => .list (meantItems xs)
  | .mapping fs => (spelled? (meantFields fs)).getD (.mapping (meantFields fs))
  | v => v

noncomputable def meantItems : List Val → List Val
  | [] => []
  | x :: xs => x.meant :: meantItems xs

noncomputable def meantFields : List (String × Val) → List (String × Val)
  | [] => []
  | (k, x) :: fs => (k, x.meant) :: meantFields fs

end

mutual

theorem meant_of_plain : ∀ v : Val, v.Plain → v.meant = v
  | .none, _ | .bool _, _ | .int _, _ | .float _, _ | .str _, _ | .date _, _ | .datetime _, _
  | .other _, _ => rfl
  | .tuple xs, h => by rw [Val.meant, meantItems_of_plain xs h]
  | .list xs, h => by rw [Val.meant, meantItems_of_plain xs h]
  | .mapping fs, h => by
      rw [Val.meant, meantFields_of_plain fs h.2, spelled?_eq_none_iff.mpr h.1, Option.getD_none]

theorem meantItems_of_plain : ∀ xs : List Val, PlainItems xs → meantItems xs = xs
  | [], _ => rfl
  | x :: xs, h => by rw [meantItems, meant_of_plain x h.1, meantItems_of_plain xs h.2]

theorem meantFields_of_plain : ∀ fs : List (String × Val), PlainFields fs → meantFields fs = fs
  | [], _ => rfl
  | (k, x) :: fs, h => by rw [meantFields, meant_of_plain x h.1, meantFields_of_plain fs h.2]

end

/-- What is meant by a mapping: a kind it spells, or the mapping. -/
theorem meant_mapping_cases (fs : List (String × Val)) :
    (∃ v, spelled? (meantFields fs) = some v ∧ (Val.mapping fs).meant = v) ∨
      (¬ Spells (meantFields fs) ∧ (Val.mapping fs).meant = .mapping (meantFields fs)) := by
  rw [Val.meant]
  cases hv : spelled? (meantFields fs) with
  | none => exact .inr ⟨spelled?_eq_none_iff.mp hv, rfl⟩
  | some v => exact .inl ⟨v, rfl, rfl⟩

mutual

theorem plain_meant : ∀ v : Val, v.meant.Plain
  | .none | .bool _ | .int _ | .float _ | .str _ | .date _ | .datetime _ | .other _ => trivial
  | .tuple xs => plainItems_meant xs
  | .list xs => plainItems_meant xs
  | .mapping fs => by
      have hfs := plainFields_meant fs
      rcases meant_mapping_cases fs with ⟨v, hv, hmeant⟩ | ⟨hnone, hmeant⟩
      · rw [hmeant]
        rcases spelled?_cases hv with ⟨xs, hxs, rfl⟩ | ⟨d, -, rfl⟩ | ⟨t, -, rfl⟩
        · rw [hxs] at hfs
          exact hfs.1
        · trivial
        · trivial
      · rw [hmeant]
        exact ⟨hnone, hfs⟩

theorem plainItems_meant : ∀ xs : List Val, PlainItems (meantItems xs)
  | [] => trivial
  | x :: xs => ⟨plain_meant x, plainItems_meant xs⟩

theorem plainFields_meant : ∀ fs : List (String × Val), PlainFields (meantFields fs)
  | [] => trivial
  | (_, x) :: fs => ⟨plain_meant x, plainFields_meant fs⟩

end

mutual

/-- What is meant by a value is written as the value is. -/
theorem doc_meant : ∀ v : Val, v.meant.doc = v.doc
  | .none | .bool _ | .int _ | .float _ | .str _ | .date _ | .datetime _ | .other _ => rfl
  | .tuple xs => by rw [Val.meant, Val.doc, Val.doc, docItems_meant xs]
  | .list xs => by rw [Val.meant, Val.doc, Val.doc, docItems_meant xs]
  | .mapping fs => by
      have hfs := docFields_meant fs
      rcases meant_mapping_cases fs with ⟨v, hv, hmeant⟩ | ⟨-, hmeant⟩
      · rw [hmeant, Val.doc, ← hfs]
        rcases spelled?_cases hv with ⟨xs, hxs, rfl⟩ | ⟨d, hd, rfl⟩ | ⟨t, ht, rfl⟩
        · rw [hxs]
          rfl
        · rw [hd]
          rfl
        · rw [ht]
          rfl
      · rw [hmeant, Val.doc, Val.doc, hfs]

theorem docItems_meant : ∀ xs : List Val, docItems (meantItems xs) = docItems xs
  | [] => rfl
  | x :: xs => by rw [meantItems, docItems, docItems, doc_meant x, docItems_meant xs]

theorem docFields_meant : ∀ fs : List (String × Val), docFields (meantFields fs) = docFields fs
  | [] => rfl
  | (k, x) :: fs => by rw [meantFields, docFields, docFields, doc_meant x, docFields_meant fs]

end

mutual

theorem accepted_meant : ∀ v : Val, v.accepted = true → v.meant.accepted = true
  | .none, _ | .bool _, _ | .int _, _ | .str _, _ | .date _, _ | .datetime _, _ => rfl
  | .float _, h => h
  | .other _, h => h
  | .tuple xs, h => acceptedItems_meant xs h
  | .list xs, h => acceptedItems_meant xs h
  | .mapping fs, h => by
      have hfs := acceptedFields_meant fs h
      rcases meant_mapping_cases fs with ⟨v, hv, hmeant⟩ | ⟨-, hmeant⟩
      · rw [hmeant]
        rcases spelled?_cases hv with ⟨xs, hxs, rfl⟩ | ⟨d, -, rfl⟩ | ⟨t, -, rfl⟩
        · rw [hxs] at hfs
          simpa [acceptedFields, Val.accepted] using hfs
        · rfl
        · rfl
      · rw [hmeant]
        exact hfs

theorem acceptedItems_meant : ∀ xs : List Val, acceptedItems xs = true →
    acceptedItems (meantItems xs) = true
  | [], _ => rfl
  | x :: xs, h => by
      simp only [acceptedItems, Bool.and_eq_true] at h
      simp [meantItems, acceptedItems, accepted_meant x h.1, acceptedItems_meant xs h.2]

theorem acceptedFields_meant : ∀ fs : List (String × Val), acceptedFields fs = true →
    acceptedFields (meantFields fs) = true
  | [], _ => rfl
  | (k, x) :: fs, h => by
      simp only [acceptedFields, Bool.and_eq_true] at h
      simp [meantFields, acceptedFields, accepted_meant x h.2.1, acceptedFields_meant fs h.2.2,
        of_decide_eq_true h.1]

end

/-! ## Reading a document -/

def readScalar : JsonScalar → Val
  | .null => .none
  | .bool b => .bool b
  | .int i => .int i
  | .float x => .float x
  | .str s => .str s

mutual

/-- The value that a document is read as. -/
noncomputable def readBack : Json → Val
  | .leaf l => readScalar l
  | .arr ds => .list (readBackItems ds)
  | .obj gs => (spelled? (readBackFields gs)).getD (.mapping (readBackFields gs))

noncomputable def readBackItems : List Json → List Val
  | [] => []
  | d :: ds => readBack d :: readBackItems ds

noncomputable def readBackFields : List (String × Json) → List (String × Val)
  | [] => []
  | (k, d) :: gs => (k, readBack d) :: readBackFields gs

end

mutual

/-- **A document tells what is meant by the value it was written from.** -/
theorem readBack_doc : ∀ v : Val, v.accepted = true → readBack v.doc = v.meant
  | .none, _ | .bool _, _ | .int _, _ | .float _, _ | .str _, _ => rfl
  | .date d, _ => by simp [Val.doc, readBack, readBackFields, readScalar, spelled?_date, Val.meant]
  | .datetime t, _ => by
      simp [Val.doc, readBack, readBackFields, readScalar, spelled?_datetime, Val.meant]
  | .tuple xs, h => by
      rw [Val.doc, readBack, readBackFields, readBack, readBackItems_doc xs h]
      rfl
  | .list xs, h => by rw [Val.doc, readBack, readBackItems_doc xs h, Val.meant]
  | .mapping fs, h => by rw [Val.doc, readBack, readBackFields_doc fs h, Val.meant]
  | .other _, h => by cases h

theorem readBackItems_doc : ∀ xs : List Val, acceptedItems xs = true →
    readBackItems (docItems xs) = meantItems xs
  | [], _ => rfl
  | x :: xs, h => by
      simp only [acceptedItems, Bool.and_eq_true] at h
      rw [docItems, readBackItems, readBack_doc x h.1, readBackItems_doc xs h.2, meantItems]

theorem readBackFields_doc : ∀ fs : List (String × Val), acceptedFields fs = true →
    readBackFields (docFields fs) = meantFields fs
  | [], _ => rfl
  | (k, x) :: fs, h => by
      simp only [acceptedFields, Bool.and_eq_true] at h
      rw [docFields, readBackFields, readBack_doc x h.2.1, readBackFields_doc fs h.2.2, meantFields]

end

/-! ## The order of keys -/

theorem plainFields_iff {fs : List (String × Val)} : PlainFields fs ↔ ∀ p ∈ fs, p.2.Plain := by
  induction fs with
  | nil => simp [PlainFields]
  | cons p fs ih => simp [PlainFields, ih]

theorem acceptedFields_iff {fs : List (String × Val)} :
    acceptedFields fs = true ↔ ∀ p ∈ fs, p.1 ≠ "" ∧ p.2.accepted = true := by
  induction fs with
  | nil => simp [acceptedFields]
  | cons p fs ih => simp [acceptedFields, ih, and_assoc]

theorem sortedFields_eq (fs : List (String × Val)) :
    sortedFields fs = fs.map fun p => (p.1, p.2.sorted) := by
  induction fs with
  | nil => rfl
  | cons p fs ih => rw [sortedFields, ih, List.map_cons]

theorem mem_sorted_mapping {fs : List (String × Val)} {p : String × Val} :
    p ∈ (sortedFields fs).insertionSort (fun p q => p.1 ≤ q.1) ↔ p ∈ sortedFields fs :=
  (List.perm_insertionSort _ _).mem_iff

/-- A list that is a single entry when sorted is that entry. -/
theorem sorted_mapping_singleton {fs : List (String × Val)} {p : String × Val}
    (h : (sortedFields fs).insertionSort (fun p q => p.1 ≤ q.1) = [p]) :
    ∃ x, fs = [(p.1, x)] ∧ x.sorted = p.2 := by
  have hperm : (sortedFields fs).Perm [p] := by
    rw [← h]
    exact (List.perm_insertionSort _ _).symm
  have hsorted := List.perm_singleton.mp hperm
  rw [sortedFields_eq] at hsorted
  obtain ⟨⟨k, x⟩, rfl, rfl⟩ := List.map_eq_singleton_iff.mp hsorted
  exact ⟨x, rfl, rfl⟩

theorem list_of_sorted {v : Val} {xs : List Val} (h : v.sorted = .list xs) :
    ∃ ys, v = .list ys := by
  cases v with
  | list ys => exact ⟨ys, rfl⟩
  | _ => cases h

theorem str_of_sorted {v : Val} {s : String} (h : v.sorted = .str s) : v = .str s := by
  cases v with
  | str t => exact h
  | _ => cases h

theorem spells_of_sorted {fs : List (String × Val)}
    (h : Spells ((sortedFields fs).insertionSort fun p q => p.1 ≤ q.1)) : Spells fs := by
  rcases h with ⟨xs, hxs⟩ | ⟨d, hd⟩ | ⟨t, ht⟩
  · obtain ⟨x, rfl, hx⟩ := sorted_mapping_singleton hxs
    obtain ⟨ys, rfl⟩ := list_of_sorted hx
    exact .inl ⟨ys, rfl⟩
  · obtain ⟨x, rfl, hx⟩ := sorted_mapping_singleton hd
    rw [str_of_sorted hx]
    exact .inr (.inl ⟨d, rfl⟩)
  · obtain ⟨x, rfl, hx⟩ := sorted_mapping_singleton ht
    rw [str_of_sorted hx]
    exact .inr (.inr ⟨t, rfl⟩)

mutual

theorem plain_sorted : ∀ v : Val, v.Plain → v.sorted.Plain
  | .none, _ | .bool _, _ | .int _, _ | .float _, _ | .str _, _ | .date _, _ | .datetime _, _
  | .other _, _ => trivial
  | .tuple xs, h => plainItems_sorted xs h
  | .list xs, h => plainItems_sorted xs h
  | .mapping fs, h => by
      refine ⟨fun hspells => h.1 (spells_of_sorted hspells), plainFields_iff.mpr ?_⟩
      intro p hp
      exact plainFields_iff.mp (plainFields_sorted fs h.2) p (mem_sorted_mapping.mp hp)

theorem plainItems_sorted : ∀ xs : List Val, PlainItems xs → PlainItems (sortedItems xs)
  | [], _ => trivial
  | x :: xs, h => ⟨plain_sorted x h.1, plainItems_sorted xs h.2⟩

theorem plainFields_sorted : ∀ fs : List (String × Val), PlainFields fs →
    PlainFields (sortedFields fs)
  | [], _ => trivial
  | (_, x) :: fs, h => ⟨plain_sorted x h.1, plainFields_sorted fs h.2⟩

end

theorem acceptedFields_perm {fs gs : List (String × Val)} (h : fs.Perm gs) :
    acceptedFields fs = acceptedFields gs := by
  rw [Bool.eq_iff_iff, acceptedFields_iff, acceptedFields_iff]
  exact ⟨fun hall p hp => hall p (h.mem_iff.mpr hp), fun hall p hp => hall p (h.mem_iff.mp hp)⟩

mutual

theorem accepted_sorted : ∀ v : Val, v.sorted.accepted = v.accepted
  | .none | .bool _ | .int _ | .float _ | .str _ | .date _ | .datetime _ | .other _ => rfl
  | .tuple xs => acceptedItems_sorted xs
  | .list xs => acceptedItems_sorted xs
  | .mapping fs => by
      rw [Val.sorted, Val.accepted, Val.accepted, ← acceptedFields_sorted fs]
      exact acceptedFields_perm (List.perm_insertionSort _ _)

theorem acceptedItems_sorted : ∀ xs : List Val, acceptedItems (sortedItems xs) = acceptedItems xs
  | [] => rfl
  | x :: xs => by
      rw [sortedItems, acceptedItems, acceptedItems, accepted_sorted x, acceptedItems_sorted xs]

theorem acceptedFields_sorted : ∀ fs : List (String × Val),
    acceptedFields (sortedFields fs) = acceptedFields fs
  | [] => rfl
  | (k, x) :: fs => by
      rw [sortedFields, acceptedFields, acceptedFields, accepted_sorted x, acceptedFields_sorted fs]

end

/-! ## What the bytes tell -/

mutual

/-- The text of a document of finite floats tells all of it. -/
theorem telling_doc : ∀ v : Val, v.accepted = true → mapLeaves telling v.doc = v.doc
  | .none, _ | .bool _, _ | .int _, _ | .str _, _ | .date _, _ | .datetime _, _ => rfl
  | .float x, h => by
      have hx : x.isFinite = true := h
      simp [Val.doc, mapLeaves, telling, oneNan, hx]
  | .tuple xs, h => by
      rw [Val.doc, mapLeaves, mapLeavesFields, mapLeaves, tellingItems_doc xs h, mapLeavesFields]
  | .list xs, h => by rw [Val.doc, mapLeaves, tellingItems_doc xs h]
  | .mapping fs, h => by rw [Val.doc, mapLeaves, tellingFields_doc fs h]
  | .other _, h => by cases h

theorem tellingItems_doc : ∀ xs : List Val, acceptedItems xs = true →
    mapLeavesList telling (docItems xs) = docItems xs
  | [], _ => rfl
  | x :: xs, h => by
      simp only [acceptedItems, Bool.and_eq_true] at h
      rw [docItems, mapLeavesList, telling_doc x h.1, tellingItems_doc xs h.2]

theorem tellingFields_doc : ∀ fs : List (String × Val), acceptedFields fs = true →
    mapLeavesFields telling (docFields fs) = docFields fs
  | [], _ => rfl
  | (k, x) :: fs, h => by
      simp only [acceptedFields, Bool.and_eq_true] at h
      rw [docFields, mapLeavesFields, telling_doc x h.2.1, tellingFields_doc fs h.2.2]

end

mutual

/-- How many mappings a value has. -/
def Val.mappings : Val → Nat
  | .tuple xs | .list xs => mappingsItems xs
  | .mapping fs => mappingsFields fs + 1
  | _ => 0

def mappingsItems : List Val → Nat
  | [] => 0
  | x :: xs => x.mappings + mappingsItems xs

def mappingsFields : List (String × Val) → Nat
  | [] => 0
  | (_, x) :: fs => x.mappings + mappingsFields fs

end

theorem mappingsFields_eq (fs : List (String × Val)) :
    mappingsFields fs = (fs.map fun p => p.2.mappings).sum := by
  induction fs with
  | nil => rfl
  | cons p fs ih => rw [mappingsFields, ih, List.map_cons, List.sum_cons]

mutual

theorem mappings_sorted : ∀ v : Val, v.sorted.mappings = v.mappings
  | .none | .bool _ | .int _ | .float _ | .str _ | .date _ | .datetime _ | .other _ => rfl
  | .tuple xs => mappingsItems_sorted xs
  | .list xs => mappingsItems_sorted xs
  | .mapping fs => by
      have hperm := ((sortedFields fs).perm_insertionSort fun p q => p.1 ≤ q.1).map
        fun p => p.2.mappings
      rw [Val.sorted, Val.mappings, Val.mappings, ← mappingsFields_sorted fs, mappingsFields_eq,
        mappingsFields_eq, hperm.sum_nat]

theorem mappingsItems_sorted : ∀ xs : List Val, mappingsItems (sortedItems xs) = mappingsItems xs
  | [] => rfl
  | x :: xs => by
      rw [sortedItems, mappingsItems, mappingsItems, mappings_sorted x, mappingsItems_sorted xs]

theorem mappingsFields_sorted : ∀ fs : List (String × Val),
    mappingsFields (sortedFields fs) = mappingsFields fs
  | [] => rfl
  | (_, x) :: fs => by
      rw [sortedFields, mappingsFields, mappingsFields, mappings_sorted x, mappingsFields_sorted fs]

end

/-- What a mapping spells has one mapping less. -/
theorem mappings_spelled {fs : List (String × Val)} {v : Val} (h : spelled? fs = some v) :
    v.mappings = mappingsFields fs := by
  rcases spelled?_cases h with ⟨xs, rfl, rfl⟩ | ⟨d, rfl, rfl⟩ | ⟨t, rfl, rfl⟩
  · simp [mappingsFields, Val.mappings]
  · simp [mappingsFields, Val.mappings]
  · simp [mappingsFields, Val.mappings]

mutual

/-- What is meant has as many mappings just if none of them spells a kind. -/
theorem mappings_meant : ∀ v : Val, v.meant.mappings ≤ v.mappings ∧
    (v.meant.mappings = v.mappings → v.Plain)
  | .none | .bool _ | .int _ | .float _ | .str _ | .date _ | .datetime _ | .other _ =>
      ⟨le_refl _, fun _ => trivial⟩
  | .tuple xs => mappingsItems_meant xs
  | .list xs => mappingsItems_meant xs
  | .mapping fs => by
      obtain ⟨hle, hplain⟩ := mappingsFields_meant fs
      rcases meant_mapping_cases fs with ⟨v, hv, hmeant⟩ | ⟨hnone, hmeant⟩
      · have hcount := mappings_spelled hv
        rw [hmeant, Val.mappings]
        exact ⟨by omega, fun heq => by omega⟩
      · rw [hmeant, Val.mappings, Val.mappings]
        refine ⟨by omega, fun heq => ?_⟩
        have hfs := hplain (by omega)
        rw [meantFields_of_plain fs hfs] at hnone
        exact ⟨hnone, hfs⟩

theorem mappingsItems_meant : ∀ xs : List Val, mappingsItems (meantItems xs) ≤ mappingsItems xs ∧
    (mappingsItems (meantItems xs) = mappingsItems xs → PlainItems xs)
  | [] => ⟨le_refl _, fun _ => trivial⟩
  | x :: xs => by
      obtain ⟨hx, hplain⟩ := mappings_meant x
      obtain ⟨hxs, hplains⟩ := mappingsItems_meant xs
      rw [meantItems, mappingsItems, mappingsItems]
      exact ⟨by omega, fun heq => ⟨hplain (by omega), hplains (by omega)⟩⟩

theorem mappingsFields_meant : ∀ fs : List (String × Val),
    mappingsFields (meantFields fs) ≤ mappingsFields fs ∧
      (mappingsFields (meantFields fs) = mappingsFields fs → PlainFields fs)
  | [] => ⟨le_refl _, fun _ => trivial⟩
  | (_, x) :: fs => by
      obtain ⟨hx, hplain⟩ := mappings_meant x
      obtain ⟨hfs, hplains⟩ := mappingsFields_meant fs
      rw [meantFields, mappingsFields, mappingsFields]
      exact ⟨by omega, fun heq => ⟨hplain (by omega), hplains (by omega)⟩⟩

end

section Told

variable {host : Host Val} {float? : String → Option F64} {xs ys : List Val} {raw : List UInt8}

end Told

end FactGraph.Evaluate
