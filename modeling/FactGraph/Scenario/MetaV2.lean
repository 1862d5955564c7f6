import FactGraph.Codec.Objects
import FactGraph.Protocol.Framing
import FactGraph.Scenario.DecimalV2
import FactGraph.Scenario.Spec

/-!
# Tokens

`_token` of `application/protocol/scenario_v2.py` and `provenance_v1.py`: a digest of a canonical JSON
text with a label.

The fields of an object are sorted, so a text tells the field-by-field content of objects that have
the same keys (`canon_obj_inj`). With a digest that has no collisions a token tells its label and its
payload (`token_inj`).
-/

namespace FactGraph.Scenario.V2

open Protocol Store Check JsonText Db

/-- The interpreter with the digest of the standard library. -/
structure Runtime extends Host where
  sha256 : List UInt8 → List UInt8

def jsonStr (s : String) : Json := .leaf (.str s)

def jsonNull : Json := .leaf .null

def jsonInt (i : Int) : Json := .leaf (.int i)

def jsonOptional (s : Option String) : Json := (s.map jsonStr).getD jsonNull

def jsonStrings (ss : List String) : Json := .arr (ss.map jsonStr)

/-- `_token`. No payload has a float, so how the text of one is written does not matter. -/
def token (rt : Runtime) (label : String) (payload : Json) : String :=
  "sha256:" ++ hexdigest (rt.sha256 (utf8 (jsonDumps jsonEscaping bitsRepr
    (sortKeys (.obj [("format", jsonStr label), ("payload", payload)])))))

/-! ## What a text tells -/

/-- A document as far as its canonical text tells it. -/
def canon (d : Json) : Json := mapLeaves telling (sortKeys d)

@[simp] theorem canon_jsonStr (s : String) : canon (jsonStr s) = jsonStr s := rfl

@[simp] theorem canon_jsonNull : canon jsonNull = jsonNull := rfl

@[simp] theorem canon_jsonInt (i : Int) : canon (jsonInt i) = jsonInt i := rfl

@[simp] theorem canon_bool (b : Bool) : canon (.leaf (.bool b)) = .leaf (.bool b) := rfl

@[simp] theorem canon_jsonOptional (s : Option String) : canon (jsonOptional s) = jsonOptional s := by
  cases s <;> rfl

@[simp] theorem canon_arr (xs : List Json) : canon (.arr xs) = .arr (xs.map canon) := by
  have hlist : mapLeavesList telling (sortKeysList xs) = xs.map canon := by
    induction xs with
    | nil => rfl
    | cons x xs ih =>
      rw [sortKeysList, mapLeavesList, ih]
      rfl
  show Doc.arr (mapLeavesList telling (sortKeysList xs)) = _
  rw [hlist]

@[simp] theorem canon_jsonStrings (ss : List String) : canon (jsonStrings ss) = jsonStrings ss := by
  unfold jsonStrings
  rw [canon_arr, List.map_map]
  rfl

/-- The fields of an object in its canonical text. -/
theorem canon_obj (fs : List (String × Json)) : ∃ gs, canon (.obj fs) = .obj gs ∧
    gs.Perm (fs.map fun p => (p.1, canon p.2)) := by
  have hfields (gs : List (String × Json)) :
      mapLeavesFields telling gs = gs.map fun p => (p.1, mapLeaves telling p.2) := by
    induction gs with
    | nil => rfl
    | cons p gs ih => rw [mapLeavesFields, ih, List.map_cons]
  refine ⟨_, rfl, ?_⟩
  rw [hfields, Codec.sortKeysFields_eq]
  refine ((List.perm_insertionSort _ _).map _).trans ?_
  rw [List.map_map]
  exact List.Perm.refl _

@[simp] theorem jsonStr_inj {s t : String} : jsonStr s = jsonStr t ↔ s = t := by
  simp [jsonStr]

@[simp] theorem jsonInt_inj {i j : Int} : jsonInt i = jsonInt j ↔ i = j := by
  simp [jsonInt]

@[simp] theorem jsonOptional_inj {s t : Option String} : jsonOptional s = jsonOptional t ↔ s = t := by
  cases s <;> cases t <;> simp [jsonOptional, jsonStr, jsonNull]

@[simp] theorem jsonStrings_inj {ss ts : List String} : jsonStrings ss = jsonStrings ts ↔ ss = ts := by
  unfold jsonStrings
  rw [Doc.arr.injEq]
  exact (List.map_injective_iff.mpr fun s t h => jsonStr_inj.mp h).eq_iff

/-- Pairs with distinct keys, in the order of one list of keys, are told by their set. -/
theorem eq_of_perm_of_keys {α : Type} {l l' : List (String × α)} (h : l.Perm l')
    (hkeys : l.map Prod.fst = l'.map Prod.fst) (hnodup : (l.map Prod.fst).Nodup) : l = l' := by
  induction l generalizing l' with
  | nil => exact h.nil_eq
  | cons p l ih =>
    cases l' with
    | nil => cases hkeys
    | cons q l' =>
      rw [List.map_cons, List.map_cons, List.cons.injEq] at hkeys
      rw [List.map_cons, List.nodup_cons] at hnodup
      have hpq : p = q := by
        rcases List.mem_cons.mp (h.subset List.mem_cons_self) with hp | hp
        · exact hp
        · -- the key of the first pair would occur twice
          have hmem : p.1 ∈ l'.map Prod.fst := List.mem_map_of_mem hp
          rw [← hkeys.2] at hmem
          exact absurd hmem hnodup.1
      subst hpq
      rw [ih ((List.perm_cons p).mp h) hkeys.2 hnodup.2]

/-- Objects with the same keys are told apart field by field. -/
theorem canon_obj_inj {fs gs : List (String × Json)} (h : canon (.obj fs) = canon (.obj gs))
    (hkeys : fs.map Prod.fst = gs.map Prod.fst) (hnodup : (fs.map Prod.fst).Nodup) :
    fs.map (fun p => canon p.2) = gs.map fun p => canon p.2 := by
  obtain ⟨fs', hfs, hperm⟩ := canon_obj fs
  obtain ⟨gs', hgs, hperm'⟩ := canon_obj gs
  rw [hfs, hgs, Doc.obj.injEq] at h
  subst h
  have heq := eq_of_perm_of_keys (hperm.symm.trans hperm')
    (by rw [List.map_map, List.map_map]; exact hkeys) (by rw [List.map_map]; exact hnodup)
  have hsnd := congrArg (List.map Prod.snd) heq
  rwa [List.map_map, List.map_map] at hsnd

/-- A field of one object is a field of another with the same text. -/
theorem canon_obj_field {fs gs : List (String × Json)} (h : canon (.obj fs) = canon (.obj gs))
    {k : String} {d : Json} (hd : (k, d) ∈ fs) : ∃ d', (k, d') ∈ gs ∧ canon d = canon d' := by
  obtain ⟨fs', hfs, hperm⟩ := canon_obj fs
  obtain ⟨gs', hgs, hperm'⟩ := canon_obj gs
  rw [hfs, hgs, Doc.obj.injEq] at h
  subst h
  have hmem : (k, canon d) ∈ gs.map fun p => (p.1, canon p.2) :=
    hperm'.subset (hperm.symm.subset (List.mem_map.mpr ⟨(k, d), hd, rfl⟩))
  obtain ⟨⟨k', d'⟩, hd', heq⟩ := List.mem_map.mp hmem
  rw [Prod.mk.injEq] at heq
  obtain ⟨rfl, heq⟩ := heq
  exact ⟨d', hd', heq.symm⟩

/-- **A token tells its label and its payload.** -/
theorem token_inj {rt : Runtime} (hsha : Function.Injective rt.sha256) {label label' : String}
    {d d' : Json} (h : token rt label d = token rt label' d') : label = label' ∧ canon d = canon d' := by
  have hhex := (String.append_right_inj "sha256:").mp h
  have htext := utf8_injective (hsha (hexdigest_inj hhex))
  have hdoc : canon (.obj [("format", jsonStr label), ("payload", d)]) =
      canon (.obj [("format", jsonStr label'), ("payload", d')]) :=
    telling_of_jsonDumps bits_floatText jsonEscaping htext
  have hfields := canon_obj_inj hdoc rfl (by simp)
  simpa using hfields

/-- A token of an object tells its fields. -/
theorem token_obj_inj {rt : Runtime} (hsha : Function.Injective rt.sha256) {label label' : String}
    {fs gs : List (String × Json)} (h : token rt label (.obj fs) = token rt label' (.obj gs))
    (hkeys : fs.map Prod.fst = gs.map Prod.fst) (hnodup : (fs.map Prod.fst).Nodup) :
    fs.map (fun p => canon p.2) = gs.map fun p => canon p.2 :=
  canon_obj_inj (token_inj hsha h).2 hkeys hnodup

/-!
## Provenance and metadata

`application/protocol/provenance_v1.py` and the metadata of `application/protocol/scenario_v2.py`: the
sources a fact comes from, what an evaluator sees of a fact besides its values, what is shown of it,
and how an operation carries all three.

Each class checks its fields and stores them in canonical form; the digests are functions of the
stored fields. Fields whose types exclude the wrong values need no check: an origin role is one of
the five.
-/

/-- The condition, for the invariant of what is built. -/
def ensure (c : Prop) [Decidable c] (message : String) : Except Fault (PLift c) :=
  if h : c then .ok ⟨h⟩ else .error (.protocolShape message)

/-- `_require_sha256_token`. -/
def IsSha256Token (value : String) : Prop :=
  "sha256:".toList <+: value.toList ∧ (value.toList.drop 7).length = 64 ∧
    ∀ c ∈ value.toList.drop 7, c ∈ "0123456789abcdef".toList

instance (value : String) : Decidable (IsSha256Token value) :=
  inferInstanceAs (Decidable (_ ∧ _ ∧ _))

/-- A text of at most so many characters, none of which is a control character. -/
def IsUncontrolled (limit : Nat) (value : String) : Prop :=
  value ≠ "" ∧ value.length ≤ limit ∧ ∀ c ∈ value.toList, 32 ≤ c.toNat ∧ c.toNat ≠ 127

instance (limit : Nat) (value : String) : Decidable (IsUncontrolled limit value) :=
  inferInstanceAs (Decidable (_ ∧ _ ∧ _))

/-! ## Provenance -/

/-- `_OPAQUE_REF_RE`. -/
abbrev IsOpaqueRef (value : String) : Prop := IsUncontrolled 256 value

/-- `_POINTER_SEGMENT_RE`. -/
abbrev IsPointerSegment (value : String) : Prop := IsUncontrolled 128 value

/-- `_require_opaque_ref`. -/
def requireOpaqueRef (value fieldName : String) : Except Fault (PLift (IsOpaqueRef value)) := do
  requireNonEmptyStr value fieldName
  ensure (IsOpaqueRef value)
    s!"{fieldName} must be a bounded opaque reference without control characters"

/-- `ProvenanceLocatorV1`, by its kind. -/
inductive Locator where
  | opaqueRef (value : String) (valid : IsOpaqueRef value)
  | lineSpan (lineStart lineEnd : Nat) (positive : 1 ≤ lineStart) (ordered : lineStart ≤ lineEnd)
  | jsonPointer (pointer : List String) (nonempty : pointer ≠ []) (bounded : pointer.length ≤ 16)
      (segments : ∀ s ∈ pointer, IsPointerSegment s)

namespace Locator

/-- `ProvenanceLocatorV1.opaque`. -/
def ofOpaque (value : String) : Except Fault Locator := do
  let h ← requireOpaqueRef value "ProvenanceLocatorV1.opaque_ref"
  .ok (.opaqueRef value h.down)

/-- `ProvenanceLocatorV1.line_span`. -/
def ofLineSpan (lineStart lineEnd : Int) : Except Fault Locator := do
  let hstart ← ensure (1 ≤ lineStart) "ProvenanceLocatorV1.line_start must be positive int"
  let hend ← ensure (1 ≤ lineEnd) "ProvenanceLocatorV1.line_end must be positive int"
  let hle ← ensure (lineStart ≤ lineEnd) "ProvenanceLocatorV1 line_span is reversed"
  .ok (.lineSpan lineStart.toNat lineEnd.toNat (by have := hstart.down; omega)
    (by have := hle.down; have := hend.down; omega))

/-- `ProvenanceLocatorV1.json_pointer`. -/
def ofJsonPointer (pointer : List String) : Except Fault Locator := do
  let hbounds ← ensure (pointer ≠ [] ∧ pointer.length ≤ 16)
    "ProvenanceLocatorV1.pointer must be a bounded non-empty tuple"
  each (fun p => require (decide (IsPointerSegment p.1)) (.protocolShape
    s!"ProvenanceLocatorV1.pointer[{p.2}] must be bounded non-control text")) pointer.zipIdx
  -- the loop has found no other segment
  let hsegments ← ensure (∀ s ∈ pointer, IsPointerSegment s) ""
  .ok (.jsonPointer pointer hbounds.down.1 hbounds.down.2 hsegments.down)

/-- `ProvenanceLocatorV1.to_wire`. -/
def toWire : Locator → Json
  | .opaqueRef value _ => .obj [("kind", jsonStr "opaque"), ("opaque_ref", jsonStr value)]
  | .lineSpan lineStart lineEnd _ _ => .obj [("kind", jsonStr "line_span"),
      ("line_start", jsonInt lineStart), ("line_end", jsonInt lineEnd)]
  | .jsonPointer pointer _ _ _ => .obj [("kind", jsonStr "json_pointer"),
      ("pointer", jsonStrings pointer)]

end Locator

/-- `ProvenanceOriginRoleV1`. -/
inductive OriginRole where
  | scenarioHypothesis | baselineSupport | agentExtraction | operatorInput | importedRecord
  deriving DecidableEq

/-- The word of a role. -/
def OriginRole.word : OriginRole → String
  | .scenarioHypothesis => "scenario_hypothesis"
  | .baselineSupport => "baseline_support"
  | .agentExtraction => "agent_extraction"
  | .operatorInput => "operator_input"
  | .importedRecord => "imported_record"

/-- `ProvenanceRefV1`. -/
structure ProvenanceRef where
  sourceRef : String
  locator : Locator
  originRole : OriginRole
  contentDigest : Option String
  admissionRef : Option String
  source_valid : IsOpaqueRef sourceRef
  content_valid : ∀ d ∈ contentDigest, IsSha256Token d
  admission_valid : ∀ r ∈ admissionRef, IsOpaqueRef r

namespace ProvenanceRef

/-- `ProvenanceRefV1.__post_init__`. -/
def make (sourceRef : String) (locator : Locator) (originRole : OriginRole)
    (contentDigest admissionRef : Option String) : Except Fault ProvenanceRef := do
  let hsource ← requireOpaqueRef sourceRef "ProvenanceRefV1.source_ref"
  let hcontent ← ensure (∀ d ∈ contentDigest, IsSha256Token d)
    "ProvenanceRefV1.content_digest must be sha256 token"
  each (fun r => requireNonEmptyStr r "ProvenanceRefV1.admission_ref") admissionRef.toList
  let hadmission ← ensure (∀ r ∈ admissionRef, IsOpaqueRef r)
    "ProvenanceRefV1.admission_ref must be a bounded opaque reference without control characters"
  .ok ⟨sourceRef, locator, originRole, contentDigest, admissionRef, hsource.down, hcontent.down,
    hadmission.down⟩

/-- `ProvenanceRefV1.to_wire`. -/
def toWire (r : ProvenanceRef) : Json :=
  .obj [("ref", jsonStr r.sourceRef), ("locator", r.locator.toWire),
    ("content_digest", jsonOptional r.contentDigest), ("origin_role", jsonStr r.originRole.word),
    ("admission_ref", jsonOptional r.admissionRef)]

/-- `reference_digest`. -/
def referenceDigest (rt : Runtime) (r : ProvenanceRef) : String := token rt "provenance_ref_v1" r.toWire

end ProvenanceRef

/-- The first of the references that have one digest. -/
def firstByDigest (rt : Runtime) : List String → List ProvenanceRef → List ProvenanceRef
  | _, [] => []
  | seen, r :: rs =>
      if r.referenceDigest rt ∈ seen then firstByDigest rt seen rs
      else r :: firstByDigest rt (r.referenceDigest rt :: seen) rs

/-- `canonical_provenance_refs_v1`. -/
def canonicalProvenanceRefsV1 (rt : Runtime) (fieldName : String) (values : List ProvenanceRef) :
    Except Fault (List ProvenanceRef) := do
  require (values.length ≤ 16) (.protocolShape s!"{fieldName} exceeds provenance reference cap")
  .ok (firstByDigest rt [] values)

/-! ## Semantics and display -/

/-- `ScenarioFactRawKindV2`: probabilistic facts are the only ones supported. -/
inductive RawKind where
  | probabilistic
  deriving DecidableEq

def RawKind.word : RawKind → String
  | .probabilistic => "probabilistic"

/-- A canonical decimal in the unit interval. -/
def IsPointProbability (host : Host) (p : String) : Prop :=
  (canonicalDecimalV2 host "FactSemanticsV2.point_probability" (.str p)).toOption = some p ∧
    (number? host (.str p)).any (fun q => decide (0 ≤ q ∧ q ≤ 1)) = true

/-- `FactSemanticsV2`. -/
structure FactSemantics (host : Host) where
  rawKind : RawKind
  pointProbability : String
  valid : IsPointProbability host pointProbability

namespace FactSemantics

variable {host : Host}

/-- `FactSemanticsV2.__post_init__`. -/
def make (host : Host) (rawKind : RawKind) (p : String) : Except Fault (FactSemantics host) :=
  match h : canonicalDecimalV2 host "FactSemanticsV2.point_probability" (.str p) with
  | .error e => .error e
  | .ok canonical => do
      let hcanonical ← ensure (canonical = p) "FactSemanticsV2.point_probability is not canonical"
      let hunit ← ensure ((number? host (.str p)).any (fun q => decide (0 ≤ q ∧ q ≤ 1)) = true)
        "FactSemanticsV2.point_probability must be in [0, 1]"
      .ok ⟨rawKind, p, by rw [h, hcanonical.down]; rfl, hunit.down⟩

/-- `FactSemanticsV2.probabilistic_point`. -/
def probabilisticPoint (host : Host) (value : Input) : Except Fault (FactSemantics host) := do
  let canonical ← canonicalDecimalV2 host "decimal" value
  make host .probabilistic canonical

/-- `semantics_digest`. -/
def semanticsDigest (rt : Runtime) (s : FactSemantics rt.toHost) : String :=
  token rt "scenario_fact_semantics_v2"
    (.obj [("raw_kind", jsonStr s.rawKind.word), ("point_probability", jsonStr s.pointProbability)])

/-- **A number is taken as a probability exactly if its text is one**: it is never refused for a text
that is not canonical. -/
theorem probabilisticPoint_ok_iff {value : Input} {p : String} :
    (∃ s, probabilisticPoint host value = .ok s ∧ s.pointProbability = p) ↔
      canonicalDecimalV2 host "decimal" value = .ok p ∧
        (number? host (.str p)).any (fun q => decide (0 ≤ q ∧ q ≤ 1)) = true := by
  constructor
  · rintro ⟨s, hs, rfl⟩
    obtain ⟨canonical, hvalue, hs⟩ := bind_ok_iff.mp hs
    unfold make at hs
    split at hs
    · cases hs
    · obtain ⟨_, _, hs⟩ := bind_ok_iff.mp hs
      obtain ⟨hunit, _, hs⟩ := bind_ok_iff.mp hs
      cases hs
      exact ⟨hvalue, hunit.down⟩
  · rintro ⟨hvalue, hunit⟩
    -- the text is read again, as another field
    have htext := canonicalDecimalV2_ok_iff.mp (canonicalDecimalV2_idempotent hvalue)
    have hagain : canonicalDecimalV2 host "FactSemanticsV2.point_probability" (.str p) = .ok p :=
      canonicalDecimalV2_ok_iff.mpr htext
    refine ⟨⟨.probabilistic, p, by rw [hagain]; rfl, hunit⟩, ?_, rfl⟩
    unfold probabilisticPoint make
    rw [hvalue, ok_bind]
    split
    next h => simp [hagain] at h
    next again h =>
      obtain rfl : p = again := Except.ok.inj (hagain.symm.trans h)
      unfold ensure
      rw [dif_pos rfl, ok_bind, dif_pos hunit, ok_bind]

end FactSemantics

/-- `_require_display_text`. -/
def IsDisplayText (limit : Nat) (value : String) : Prop :=
  value ≠ "" ∧ value.length ≤ limit ∧ '\x00' ∉ value.toList

instance (limit : Nat) (value : String) : Decidable (IsDisplayText limit value) :=
  inferInstanceAs (Decidable (_ ∧ _ ∧ _))

/-- `ScenarioDisplayV2`. -/
structure Display where
  note : Option String
  labels : List String
  note_valid : ∀ n ∈ note, IsDisplayText 2048 n
  labels_valid : ∀ l ∈ labels, IsDisplayText 128 l
  canonical : ∃ given : List String, given.length ≤ 16 ∧ labels = canonicalStrings given

namespace Display

/-- `ScenarioDisplayV2()`. -/
def empty : Display := ⟨none, [], by simp, by simp, [], by decide, rfl⟩

/-- `ScenarioDisplayV2.__post_init__`. -/
def make (note : Option String) (labels : List String) : Except Fault Display := do
  let hnote ← ensure (∀ n ∈ note, IsDisplayText 2048 n)
    "ScenarioDisplayV2.note must be bounded non-empty display text"
  let hbounded ← ensure (labels.length ≤ 16) "ScenarioDisplayV2.labels must be bounded tuple[str, ...]"
  each (fun p => require (decide (IsDisplayText 128 p.1)) (.protocolShape
    s!"ScenarioDisplayV2.labels[{p.2}] must be bounded non-empty display text")) labels.zipIdx
  -- the loop has found no other label
  let hlabels ← ensure (∀ l ∈ canonicalStrings labels, IsDisplayText 128 l) ""
  .ok ⟨note, canonicalStrings labels, hnote.down, hlabels.down, labels, hbounded.down, rfl⟩

/-- `display_digest`. -/
def displayDigest (rt : Runtime) (d : Display) : String :=
  token rt "scenario_display_v2"
    (.obj [("note", jsonOptional d.note), ("labels", jsonStrings d.labels)])

end Display

/-! ## The metadata of an operation -/

/-- `ScenarioMetaV2`. -/
structure ScenarioMeta (rt : Runtime) where
  factSemantics : Option (FactSemantics rt.toHost)
  provenance : List ProvenanceRef
  display : Display

namespace ScenarioMeta

variable {rt : Runtime}

/-- `ScenarioMetaV2.__post_init__`. -/
def make (factSemantics : Option (FactSemantics rt.toHost)) (provenance : List ProvenanceRef)
    (display : Display) : Except Fault (ScenarioMeta rt) := do
  let provenance ← canonicalProvenanceRefsV1 rt "ScenarioMetaV2.provenance" provenance
  .ok ⟨factSemantics, provenance, display⟩

/-- `semantics_digest`. -/
def semanticsDigest (m : ScenarioMeta rt) : String :=
  token rt "scenario_meta_v2_semantics"
    (jsonOptional (m.factSemantics.map (·.semanticsDigest rt)))

/-- `provenance_digest`. -/
def provenanceDigest (m : ScenarioMeta rt) : String :=
  token rt "scenario_meta_v2_provenance" (jsonStrings (m.provenance.map (·.referenceDigest rt)))

/-- `evidence_digest`. -/
def evidenceDigest (m : ScenarioMeta rt) : String :=
  token rt "scenario_meta_v2_evidence" (.obj [("provenance_digest", jsonStr m.provenanceDigest),
    ("display_digest", jsonStr (m.display.displayDigest rt))])

end ScenarioMeta

/-! ## What the digests tell -/

section

variable {rt : Runtime} (hsha : Function.Injective rt.sha256)

theorem OriginRole.word_inj {r r' : OriginRole} (h : r.word = r'.word) : r = r' := by
  cases r <;> cases r' <;> first | rfl | exact absurd h (by decide)

theorem Locator.toWire_inj {l l' : Locator} (h : canon l.toWire = canon l'.toWire) : l = l' := by
  -- the kind is a field of every locator
  cases l with
  | opaqueRef value valid =>
    cases l' with
    | opaqueRef value' valid' =>
      have hfields := canon_obj_inj h rfl (by simp)
      simp only [List.map_cons, canon_jsonStr, jsonStr_inj, List.cons.injEq] at hfields
      obtain ⟨-, rfl, -⟩ := hfields
      rfl
    | lineSpan _ _ _ _ =>
      obtain ⟨d, hd, hkind⟩ := canon_obj_field h List.mem_cons_self
      simp at hd
      subst hd
      simp at hkind
    | jsonPointer _ _ _ _ =>
      obtain ⟨d, hd, hkind⟩ := canon_obj_field h List.mem_cons_self
      simp at hd
      subst hd
      simp at hkind
  | lineSpan lineStart lineEnd positive ordered =>
    cases l' with
    | opaqueRef _ _ =>
      obtain ⟨d, hd, hkind⟩ := canon_obj_field h List.mem_cons_self
      simp at hd
      subst hd
      simp at hkind
    | lineSpan lineStart' lineEnd' positive' ordered' =>
      have hfields := canon_obj_inj h rfl (by simp)
      simp only [List.map_cons, canon_jsonInt, jsonInt_inj, List.cons.injEq, Int.natCast_inj] at hfields
      obtain ⟨-, rfl, rfl, -⟩ := hfields
      rfl
    | jsonPointer _ _ _ _ =>
      obtain ⟨d, hd, hkind⟩ := canon_obj_field h List.mem_cons_self
      simp at hd
      subst hd
      simp at hkind
  | jsonPointer pointer nonempty bounded segments =>
    cases l' with
    | opaqueRef _ _ =>
      obtain ⟨d, hd, hkind⟩ := canon_obj_field h List.mem_cons_self
      simp at hd
      subst hd
      simp at hkind
    | lineSpan _ _ _ _ =>
      obtain ⟨d, hd, hkind⟩ := canon_obj_field h List.mem_cons_self
      simp at hd
      subst hd
      simp at hkind
    | jsonPointer pointer' nonempty' bounded' segments' =>
      have hfields := canon_obj_inj h rfl (by simp)
      simp only [List.map_cons, canon_jsonStrings, jsonStrings_inj, List.cons.injEq] at hfields
      obtain ⟨-, rfl, -⟩ := hfields
      rfl

include hsha

theorem ProvenanceRef.referenceDigest_inj {r r' : ProvenanceRef}
    (h : r.referenceDigest rt = r'.referenceDigest rt) : r = r' := by
  have hfields := token_obj_inj hsha h rfl (by simp)
  simp only [List.map_cons, canon_jsonStr, canon_jsonOptional, jsonStr_inj, jsonOptional_inj,
    List.cons.injEq] at hfields
  obtain ⟨hsource, hlocator, hcontent, hrole, hadmission, -⟩ := hfields
  obtain ⟨s, l, o, c, a, _, _, _⟩ := r
  obtain ⟨s', l', o', c', a', _, _, _⟩ := r'
  obtain rfl := Locator.toWire_inj hlocator
  obtain rfl := OriginRole.word_inj hrole
  cases hsource
  cases hcontent
  cases hadmission
  rfl

theorem referenceDigests_inj {rs rs' : List ProvenanceRef}
    (h : rs.map (·.referenceDigest rt) = rs'.map (·.referenceDigest rt)) : rs = rs' :=
  List.map_injective_iff.mpr (fun _ _ => ProvenanceRef.referenceDigest_inj hsha) h

theorem FactSemantics.semanticsDigest_inj {s s' : FactSemantics rt.toHost}
    (h : s.semanticsDigest rt = s'.semanticsDigest rt) : s = s' := by
  have hfields := token_obj_inj hsha h rfl (by simp)
  simp only [List.map_cons, canon_jsonStr, jsonStr_inj, List.cons.injEq] at hfields
  obtain ⟨k, p, _⟩ := s
  obtain ⟨k', p', _⟩ := s'
  cases k
  cases k'
  cases hfields.2.1
  rfl

theorem semanticsDigests_inj {s s' : Option (FactSemantics rt.toHost)}
    (h : s.map (·.semanticsDigest rt) = s'.map (·.semanticsDigest rt)) : s = s' :=
  Option.map_injective (fun _ _ => FactSemantics.semanticsDigest_inj hsha) h

theorem Display.displayDigest_inj {d d' : Display} (h : d.displayDigest rt = d'.displayDigest rt) :
    d = d' := by
  have hfields := token_obj_inj hsha h rfl (by simp)
  simp only [List.map_cons, canon_jsonOptional, canon_jsonStrings, jsonOptional_inj, jsonStrings_inj,
    List.cons.injEq] at hfields
  obtain ⟨n, l, _, _, _⟩ := d
  obtain ⟨n', l', _, _, _⟩ := d'
  cases hfields.1
  cases hfields.2.1
  rfl

/-- The digests of a metadata lane tell the lane. -/
theorem ScenarioMeta.digests_inj {m m' : ScenarioMeta rt} (hsemantics : m.semanticsDigest = m'.semanticsDigest)
    (hevidence : m.evidenceDigest = m'.evidenceDigest) : m = m' := by
  unfold semanticsDigest at hsemantics
  unfold evidenceDigest at hevidence
  have hs := (token_inj hsha hsemantics).2
  simp only [canon_jsonOptional, jsonOptional_inj] at hs
  have hfields := token_obj_inj hsha hevidence (by simp) (by simp)
  simp only [List.map_cons, canon_jsonStr, jsonStr_inj, List.cons.injEq] at hfields
  have hprovenance := hfields.1
  unfold provenanceDigest at hprovenance
  have hrefs := (token_inj hsha hprovenance).2
  simp only [canon_jsonStrings, jsonStrings_inj] at hrefs
  obtain ⟨s, p, d⟩ := m
  obtain ⟨s', p', d'⟩ := m'
  obtain rfl := semanticsDigests_inj hsha hs
  obtain rfl := referenceDigests_inj hsha hrefs
  obtain rfl := Display.displayDigest_inj hsha hfields.2.1
  rfl

end

end FactGraph.Scenario.V2
