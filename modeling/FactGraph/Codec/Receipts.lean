import FactGraph.Codec.Escapes

/-!
# Receipts and envelopes

`ProofReceipt` and `ProvenanceEnvelope` of `core/store/_support.py`, with what they are made of: what
the constructors check, `support_artifact_to_dict` and `support_artifact_from_dict`, the envelope's
pair, and the digests.

What is read is constructed again, so it passes the checks that the receipt has passed. A receipt or
an envelope comes back just if its values do (`support_roundtrip_iff`). Fields that are annotated as
tuples are tuples.
-/

namespace FactGraph.Codec.Support

open Protocol Store Db JsonText Check

variable {K : Type} [DecidableEq K]

/-! ## Sorted fields -/

/-- `binding_items` and `details`. -/
abbrev Items (K : Type) := List (String × PyObj K)

/-- `normalize_binding_items` and `normalize_detail_items` leave the items as they are: a stable sort
does if the keys ascend, and another order has another key somewhere. -/
def checkItems (items : Items K) (keyMsg sortMsg : String) : Except SupportErr Unit := do
  require (items.all fun p => p.1 ≠ "") (.valueError keyMsg)
  require (decide (items.Pairwise fun p q => p.1 ≤ q.1)) (.valueError sortMsg)

/-- `sorted(_normalize_non_empty_strings(values)) == values`. -/
def checkTexts (texts : List String) (msg : String) : Except SupportErr Unit := do
  require (texts.all (· ≠ "")) (.valueError "expected non-empty strings")
  require (texts = texts.dedup.insertionSort (· ≤ ·)) (.valueError msg)

/-- The order of tuples of as many strings. -/
def textsLt : List String → List String → Bool
  | a :: as, b :: bs => if a = b then textsLt as bs else decide (a < b)
  | _, _ => false

/-- The numbers among the scalars, on a line with the infinities; a `nan` is on no side of any. -/
inductive Number where
  | nan
  | negative
  | finite (q : Rat)
  | positive

def number? : Scalar → Option Number
  | .bool b => some (.finite (if b then 1 else 0))
  | .int i => some (.finite i)
  | .float x =>
      if x.isFinite then some (.finite x.toRat)
      else if x = positiveInfinity then some .positive
      else if x = negativeInfinity then some .negative
      else some .nan
  | _ => none

def Number.lt : Number → Number → Bool
  | .nan, _ | _, .nan => false
  | .negative, .negative => false
  | .negative, _ => true
  | .finite p, .finite q => decide (p < q)
  | .finite _, .positive => true
  | _, _ => false

def bytesLt : List UInt8 → List UInt8 → Bool
  | [], _ :: _ => true
  | a :: as, b :: bs => if a = b then bytesLt as bs else decide (a < b)
  | _, [] => false

mutual

/-- `x < y`, and `none` where it is a `TypeError`. -/
def lt? : PyObj K → PyObj K → Option Bool
  | .leaf (.str s), .leaf (.str t) => some (decide (s < t))
  | .leaf (.bytes s), .leaf (.bytes t) => some (bytesLt s t)
  | .leaf s, .leaf t => do
      let m ← number? s
      let n ← number? t
      some (m.lt n)
  | .list xs, .list ys => ltList? xs ys
  | .tuple xs, .tuple ys => ltList? xs ys
  | _, _ => none

def ltList? : List (PyObj K) → List (PyObj K) → Option Bool
  | [], ys => some !ys.isEmpty
  | _ :: _, [] => some false
  | x :: xs, y :: ys => if eqv x y then ltList? xs ys else lt? x y

end

/-- `details < details`. -/
def itemsLt? : Items K → Items K → Option Bool
  | [], qs => some !qs.isEmpty
  | _ :: _, [] => some false
  | p :: ps, q :: qs =>
      if p.1 = q.1 then
        if eqv p.2 q.2 then itemsLt? ps qs else lt? p.2 q.2
      else some (decide (p.1 < q.1))

/-! ## Parts of a receipt -/

/-- `WitnessCapture`. -/
structure WitnessCapture (K : Type) where
  witnessRef : String
  kind : String
  predicateId : String
  terms : List (PyObj K)

/-- `WitnessCapture.__post_init__`. -/
def WitnessCapture.postInit (c : WitnessCapture K) : Except SupportErr Unit := do
  require (c.witnessRef ≠ "") (.valueError "witness_ref must be non-empty")
  require (c.kind ∈ ["assertion", "virtual", "unknown"])
    (.valueError "invalid captured witness kind")
  require (c.predicateId ≠ "") (.valueError "predicate_id must be non-empty")
  require (!c.terms.isEmpty) (.valueError "captured witness terms must be a non-empty tuple")

/-- `PredWitness`. -/
structure PredWitness (K : Type) where
  predConditionKey : String
  asrtIds : List String
  witnesses : Option (List (WitnessCapture K))

/-- `PredWitness.__post_init__`. -/
def PredWitness.postInit (w : PredWitness K) : Except SupportErr Unit := do
  require (w.predConditionKey ≠ "")
    (.valueError "PredWitness.pred_condition_key must be non-empty string")
  checkTexts w.asrtIds "PredWitness.asrt_ids must be sorted unique non-empty strings"
  match w.witnesses with
  | none => .ok ()
  | some captures =>
      require (captures.map (·.witnessRef) = w.asrtIds)
        (.valueError "witness metadata must exactly cover original refs in order")

/-- `NonFactStep`. -/
structure NonFactStep (K : Type) where
  stepKey : String
  kind : String
  status : String
  details : Items K

/-- `NonFactStep.__post_init__`. -/
def NonFactStep.postInit (s : NonFactStep K) : Except SupportErr Unit := do
  require (s.stepKey ≠ "") (.valueError "NonFactStep.step_key must be non-empty string")
  require (s.kind ≠ "") (.valueError "NonFactStep.kind must be non-empty string")
  require (s.status ≠ "") (.valueError "NonFactStep.status must be non-empty string")
  checkItems s.details "detail keys must be non-empty strings"
    "NonFactStep.details must be sorted key/value tuples"

/-- The order that `non_fact_steps` are sorted by. -/
def NonFactStep.lt? (s t : NonFactStep K) : Option Bool :=
  let texts := [s.stepKey, s.kind, s.status]
  let others := [t.stepKey, t.kind, t.status]
  if texts = others then itemsLt? s.details t.details else some (textsLt texts others)

/-- `RuleRefEdge`. -/
structure RuleRefEdge where
  rulerefConditionKey : String
  ruleRefId : String
  ruleRefVersion : String
  childSupportDigest : Option String
  unresolvedReason : Option String
  deriving DecidableEq

/-- `RuleRefEdge.__post_init__`. -/
def RuleRefEdge.postInit (e : RuleRefEdge) : Except SupportErr Unit := do
  require (e.rulerefConditionKey ≠ "")
    (.valueError "RuleRefEdge.ruleref_condition_key must be non-empty string")
  require (e.ruleRefId ≠ "") (.valueError "RuleRefEdge.rule_ref_id must be non-empty string")
  require (e.ruleRefVersion ≠ "") (.valueError "RuleRefEdge.rule_ref_version must be non-empty string")
  require (e.childSupportDigest.isSome || e.unresolvedReason.isSome)
    (.valueError "RuleRefEdge must have child_support_digest or unresolved_reason")
  match e.childSupportDigest with
  | none => .ok ()
  | some digest => do
      require (startsWith "sha256:" digest)
        (.valueError "RuleRefEdge.child_support_digest must be sha256 token")
      require e.unresolvedReason.isNone
        (.valueError "resolved RuleRefEdge must not carry unresolved_reason")
  require (e.unresolvedReason ≠ some "")
    (.valueError "RuleRefEdge.unresolved_reason must be non-empty string")

/-- `_rule_ref_edge_sort_key`. -/
def RuleRefEdge.sortKey (e : RuleRefEdge) : List String :=
  [e.rulerefConditionKey, e.ruleRefId, e.ruleRefVersion, e.childSupportDigest.getD ""]

/-- `ProofReceipt`. -/
structure ProofReceipt (K : Type) where
  kind : String
  rootResultKind : String
  bindingItems : Items K
  predWitnesses : List (PredWitness K)
  nonFactSteps : List (NonFactStep K)
  ruleRefs : List String
  ruleRefEdges : List RuleRefEdge
  witnessCaptureVersion : Option Int

/-- No element is less than the one before it: a sort compares these first, and moves nothing then. -/
def ascending {A : Type} (lt? : A → A → Option Bool) : List A → Except SupportErr Bool
  | a :: b :: rest =>
      match lt? b a with
      | none => .error (.typeError "'<' not supported between instances")
      | some true => .ok false
      | some false => ascending lt? (b :: rest)
  | _ => .ok true

/-- `ProofReceipt.__post_init__`. -/
def ProofReceipt.postInit (r : ProofReceipt K) : Except SupportErr Unit := do
  require (r.witnessCaptureVersion ∈ [none, some 1])
    (.valueError "unsupported witness capture version")
  require (r.predWitnesses.all fun w => w.witnesses.isSome = decide (r.witnessCaptureVersion = some 1))
    (.valueError "witness capture version and metadata coverage disagree")
  require (r.kind ≠ "") (.valueError "ProofReceipt.kind must be non-empty string")
  require (r.rootResultKind ∈ ["fact", "entity", "row"])
    (.valueError "ProofReceipt.root_result_kind must be 'fact', 'entity', or 'row'")
  checkItems r.bindingItems "binding keys must be non-empty strings"
    "ProofReceipt.binding_items must be sorted binding tuples"
  require (decide (r.predWitnesses.Pairwise fun w v => w.predConditionKey ≤ v.predConditionKey))
    (.valueError "ProofReceipt.pred_witnesses must be sorted by pred_condition_key")
  let sorted ← ascending NonFactStep.lt? r.nonFactSteps
  require sorted (.valueError "ProofReceipt.non_fact_steps must be sorted")
  checkTexts r.ruleRefs "ProofReceipt.rule_refs must be sorted unique non-empty strings"
  let edges ← ascending (fun e f => some (textsLt e.sortKey f.sortKey)) r.ruleRefEdges
  require edges (.valueError "ProofReceipt.rule_ref_edges must be sorted")

/-! ## Writing -/

def str (s : String) : PyObj K := .leaf (.str s)

/-- `None`, or the string. -/
def optional : Option String → PyObj K
  | none => .leaf .none
  | some s => str s

/-- A `dict` with these string keys. -/
def row (fields : List (String × PyObj K)) : PyObj K := .dict (fields.map fun p => (.str p.1, p.2))

def itemsToJsonable (keyStr : K → String) (items : Items K) : PyObj K :=
  .list (items.map fun p => .list [str p.1, toJsonable keyStr p.2])

def WitnessCapture.toDict (keyStr : K → String) (c : WitnessCapture K) : PyObj K :=
  row [("witness_ref", str c.witnessRef), ("kind", str c.kind), ("predicate_id", str c.predicateId),
    ("terms", .list (c.terms.map (toJsonable keyStr)))]

def PredWitness.toDict (keyStr : K → String) (version : Option Int) (w : PredWitness K) : PyObj K :=
  row ([("pred_condition_key", str w.predConditionKey), ("asrt_ids", .list (w.asrtIds.map str))] ++
    match version with
    | none => []
    | some _ => [("witnesses", .list ((w.witnesses.getD []).map (·.toDict keyStr)))])

def NonFactStep.toDict (keyStr : K → String) (s : NonFactStep K) : PyObj K :=
  row [("step_key", str s.stepKey), ("kind", str s.kind), ("status", str s.status),
    ("details", itemsToJsonable keyStr s.details)]

def RuleRefEdge.toDict (e : RuleRefEdge) : PyObj K :=
  row [("ruleref_condition_key", str e.rulerefConditionKey), ("rule_ref_id", str e.ruleRefId),
    ("rule_ref_version", str e.ruleRefVersion),
    ("child_support_digest", optional e.childSupportDigest),
    ("unresolved_reason", optional e.unresolvedReason)]

/-- `support_artifact_to_dict`. -/
def supportArtifactToDict (keyStr : K → String) (r : ProofReceipt K) : PyObj K :=
  row ([("kind", str r.kind), ("root_result_kind", str r.rootResultKind),
      ("binding", itemsToJsonable keyStr r.bindingItems),
      ("pred_witnesses", .list (r.predWitnesses.map (·.toDict keyStr r.witnessCaptureVersion))),
      ("non_fact_steps", .list (r.nonFactSteps.map (·.toDict keyStr))),
      ("rule_refs", .list (r.ruleRefs.map str)),
      ("rule_ref_edges", .list (r.ruleRefEdges.map (·.toDict)))] ++
    match r.witnessCaptureVersion with
    | none => []
    | some version => [("witness_capture_version", .leaf (.int version))])

/-! ## Reading -/

/-- `row.get(key)`. -/
def get? (fields : List (Key K × PyObj K)) (key : String) : Option (PyObj K) :=
  Dict.get? fields (.str key)

/-- `row[key]`. -/
def item (fields : List (Key K × PyObj K)) (key : String) : Except SupportErr (PyObj K) :=
  match get? fields key with
  | some v => .ok v
  | none => .error (.keyError key)

/-- A field that a constructor wants to be a string. -/
def text (msg : String) : PyObj K → Except SupportErr String
  | .leaf (.str s) => .ok s
  | _ => .error (.valueError msg)

/-- A field that a constructor wants to be a string or `None`. -/
def optionalText (msg : String) : PyObj K → Except SupportErr (Option String)
  | .leaf .none => .ok none
  | .leaf (.str s) => .ok (some s)
  | _ => .error (.valueError msg)

/-- What a loop runs over. -/
def elements : PyObj K → Except SupportErr (List (PyObj K))
  | .list xs => .ok xs
  | .tuple xs => .ok xs
  | _ => .error (.typeError "object is not iterable")

/-- The fields of a mapping; another object has no items. -/
def mapping (e : SupportErr) : PyObj K → Except SupportErr (List (Key K × PyObj K))
  | .dict fs => .ok fs
  | _ => .error e

/-- `(key, _from_jsonable(value))` of a pair. -/
def readItem (keyMsg : String) (pair : PyObj K) : Except SupportErr (String × PyObj K) := do
  let parts ← elements pair
  match parts with
  | [key, value] => do
      let restored ← fromJsonable value
      let key ← text keyMsg key
      .ok (key, restored)
  | _ => .error (.valueError "not enough values to unpack")

def readItems (keyMsg : String) (v : PyObj K) : Except SupportErr (Items K) := do
  let pairs ← elements v
  mapOk (readItem keyMsg) pairs

/-- `_witness_capture_from_dict`. -/
def witnessCaptureFromDict (v : PyObj K) : Except SupportErr (WitnessCapture K) := do
  let fields ← mapping (.valueError "invalid witness capture fields") v
  let names : List (Key K) := [.str "witness_ref", .str "kind", .str "predicate_id", .str "terms"]
  require (decide ((Dict.keys fields).Perm names)) (.valueError "invalid witness capture fields")
  let raw ← item fields "terms"
  let values ← match raw with
    | .list xs => .ok xs
    | _ => .error (.typeError "captured terms must be a list")
  let witnessRef ← item fields "witness_ref"
  let kind ← item fields "kind"
  let predicateId ← item fields "predicate_id"
  let terms ← fromJsonableList values
  let witnessRef ← text "witness_ref must be non-empty" witnessRef
  let kind ← text "invalid captured witness kind" kind
  let predicateId ← text "predicate_id must be non-empty" predicateId
  let capture : WitnessCapture K := ⟨witnessRef, kind, predicateId, terms⟩
  capture.postInit
  .ok capture

/-- The captures of a row, if it has any. -/
def readWitnesses (fields : List (Key K × PyObj K)) :
    Except SupportErr (Option (List (WitnessCapture K))) :=
  match get? fields "witnesses" with
  | none => .ok none
  | some v => do
      let values ← elements v
      let captures ← mapOk witnessCaptureFromDict values
      .ok (some captures)

def predWitnessFromDict (v : PyObj K) : Except SupportErr (PredWitness K) := do
  let fields ← mapping (.typeError "object is not subscriptable") v
  let predConditionKey ← item fields "pred_condition_key"
  let asrtIds ← item fields "asrt_ids"
  let asrtIds ← elements asrtIds
  let witnesses ← readWitnesses fields
  let predConditionKey ← text "PredWitness.pred_condition_key must be non-empty string"
    predConditionKey
  let asrtIds ← mapOk (text "expected non-empty strings") asrtIds
  let witness : PredWitness K := ⟨predConditionKey, asrtIds, witnesses⟩
  witness.postInit
  .ok witness

def nonFactStepFromDict (v : PyObj K) : Except SupportErr (NonFactStep K) := do
  let fields ← mapping (.typeError "object is not subscriptable") v
  let stepKey ← item fields "step_key"
  let kind ← item fields "kind"
  let status ← item fields "status"
  let details ← item fields "details"
  let details ← readItems "detail keys must be non-empty strings" details
  let stepKey ← text "NonFactStep.step_key must be non-empty string" stepKey
  let kind ← text "NonFactStep.kind must be non-empty string" kind
  let status ← text "NonFactStep.status must be non-empty string" status
  let step : NonFactStep K := ⟨stepKey, kind, status, details⟩
  step.postInit
  .ok step

def ruleRefEdgeFromDict (v : PyObj K) : Except SupportErr RuleRefEdge := do
  let fields ← mapping (.typeError "object is not subscriptable") v
  let rulerefConditionKey ← item fields "ruleref_condition_key"
  let ruleRefId ← item fields "rule_ref_id"
  let ruleRefVersion ← item fields "rule_ref_version"
  let child := (get? fields "child_support_digest").getD (.leaf .none)
  let reason := (get? fields "unresolved_reason").getD (.leaf .none)
  let rulerefConditionKey ← text "RuleRefEdge.ruleref_condition_key must be non-empty string"
    rulerefConditionKey
  let ruleRefId ← text "RuleRefEdge.rule_ref_id must be non-empty string" ruleRefId
  let ruleRefVersion ← text "RuleRefEdge.rule_ref_version must be non-empty string" ruleRefVersion
  let child ← optionalText "RuleRefEdge.child_support_digest must be sha256 token" child
  let reason ← optionalText "RuleRefEdge.unresolved_reason must be non-empty string" reason
  let edge : RuleRefEdge := ⟨rulerefConditionKey, ruleRefId, ruleRefVersion, child, reason⟩
  edge.postInit
  .ok edge

/-- `row.get(key, ())`, as what a loop runs over. -/
def elementsOf (fields : List (Key K × PyObj K)) (key : String) : Except SupportErr (List (PyObj K)) :=
  elements ((get? fields key).getD (.tuple []))

/-- A field that a constructor wants to be `1` or `None`. -/
def captureVersion : PyObj K → Except SupportErr (Option Int)
  | .leaf .none => .ok none
  | .leaf (.int version) => .ok (some version)
  | _ => .error (.valueError "unsupported witness capture version")

/-- `support_artifact_from_dict`. -/
def supportArtifactFromDict (v : PyObj K) : Except SupportErr (ProofReceipt K) := do
  let fields ← mapping (.valueError "row must be Mapping[str, Any]") v
  let kind ← item fields "kind"
  let rootResultKind ← item fields "root_result_kind"
  let binding ← item fields "binding"
  let bindingItems ← readItems "binding keys must be non-empty strings" binding
  let rows ← item fields "pred_witnesses"
  let rows ← elements rows
  let predWitnesses ← mapOk predWitnessFromDict rows
  let steps ← elementsOf fields "non_fact_steps"
  let nonFactSteps ← mapOk nonFactStepFromDict steps
  let ruleRefs ← elementsOf fields "rule_refs"
  let version ← captureVersion ((get? fields "witness_capture_version").getD (.leaf .none))
  let edges ← elementsOf fields "rule_ref_edges"
  let ruleRefEdges ← mapOk ruleRefEdgeFromDict edges
  let kind ← text "ProofReceipt.kind must be non-empty string" kind
  let rootResultKind ← text "ProofReceipt.root_result_kind must be 'fact', 'entity', or 'row'"
    rootResultKind
  let ruleRefs ← mapOk (text "expected non-empty strings") ruleRefs
  let receipt : ProofReceipt K :=
    { kind, rootResultKind, bindingItems, predWitnesses, nonFactSteps, ruleRefs, ruleRefEdges
      witnessCaptureVersion := version }
  receipt.postInit
  .ok receipt

/-! ## What is read of what was written -/

variable {keyStr : K → String}

theorem toJsonableList_eq_map (xs : List (PyObj K)) :
    toJsonableList keyStr xs = xs.map (toJsonable keyStr) := by
  induction xs with
  | nil => rfl
  | cons x xs ih => rw [toJsonableList, ih, List.map_cons]

omit [DecidableEq K] in
theorem mapOk_text (msg : String) (texts : List String) :
    mapOk (text msg) (texts.map (str : String → PyObj K)) = .ok texts := by
  induction texts with
  | nil => rfl
  | cons s texts ih =>
    rw [List.map_cons, mapOk, ih]
    rfl

omit [DecidableEq K] in
theorem optionalText_optional (msg : String) (s : Option String) :
    optionalText msg (optional s : PyObj K) = .ok s := by
  cases s <;> rfl

theorem mapOk_comp {ε α β γ : Type} (f : β → Except ε γ) (g : α → β) (as : List α) :
    mapOk f (as.map g) = mapOk (fun a => f (g a)) as := by
  induction as with
  | nil => rfl
  | cons a as ih => rw [List.map_cons, mapOk, mapOk, ih]

/-- An item, written and read. -/
def restoreItem (keyStr : K → String) (p : String × PyObj K) : Except SupportErr (String × PyObj K) := do
  let restored ← fromJsonable (toJsonable keyStr p.2)
  .ok (p.1, restored)

theorem readItems_itemsToJsonable (msg : String) (items : Items K) :
    readItems msg (itemsToJsonable keyStr items) = mapOk (restoreItem keyStr) items := by
  show mapOk (readItem msg) (items.map _) = _
  rw [mapOk_comp]
  rfl

/-- A capture, written and read. -/
def WitnessCapture.restore (keyStr : K → String) (c : WitnessCapture K) :
    Except SupportErr (WitnessCapture K) := do
  let terms ← fromJsonableList (toJsonableList keyStr c.terms)
  let capture : WitnessCapture K := { c with terms := terms }
  capture.postInit
  .ok capture

theorem witnessCaptureFromDict_toDict (c : WitnessCapture K) :
    witnessCaptureFromDict (c.toDict keyStr) = c.restore keyStr := by
  have hnames : ∀ fields : List (String × PyObj K), Dict.keys fields =
      ["witness_ref", "kind", "predicate_id", "terms"] →
      (Dict.keys (fields.map fun p => ((.str p.1 : Key K), p.2))).Perm
        [.str "witness_ref", .str "kind", .str "predicate_id", .str "terms"] := by
    intro fields hkeys
    have hmap : Dict.keys (fields.map fun p => ((.str p.1 : Key K), p.2)) =
        (Dict.keys fields).map Key.str := by
      unfold Dict.keys
      rw [List.map_map, List.map_map]
      rfl
    rw [hmap, hkeys]
    exact List.Perm.refl _
  unfold witnessCaptureFromDict WitnessCapture.toDict WitnessCapture.restore
  simp only [row, mapping, ok_bind]
  rw [require_of_true (decide_eq_true (hnames _ rfl))]
  simp [item, get?, Dict.get?, toJsonableList_eq_map, text, str]

/-- A step, written and read. -/
def NonFactStep.restore (keyStr : K → String) (s : NonFactStep K) :
    Except SupportErr (NonFactStep K) := do
  let details ← mapOk (restoreItem keyStr) s.details
  let step : NonFactStep K := { s with details := details }
  step.postInit
  .ok step

theorem nonFactStepFromDict_toDict (s : NonFactStep K) :
    nonFactStepFromDict (s.toDict keyStr) = s.restore keyStr := by
  unfold nonFactStepFromDict NonFactStep.toDict NonFactStep.restore
  simp only [row, mapping, ok_bind]
  simp [item, get?, Dict.get?, readItems_itemsToJsonable, text, str]

/-- The captures of a row, written and read. -/
def restoreWitnesses (keyStr : K → String) : Option (List (WitnessCapture K)) →
    Except SupportErr (Option (List (WitnessCapture K)))
  | none => .ok none
  | some captures => do
      let restored ← mapOk (WitnessCapture.restore keyStr) captures
      .ok (some restored)

/-- A row, written and read. -/
def PredWitness.restore (keyStr : K → String) (w : PredWitness K) :
    Except SupportErr (PredWitness K) := do
  let witnesses ← restoreWitnesses keyStr w.witnesses
  let witness : PredWitness K := { w with witnesses := witnesses }
  witness.postInit
  .ok witness

theorem predWitnessFromDict_toDict {w : PredWitness K} {version : Option Int}
    (h : w.witnesses.isSome = version.isSome) :
    predWitnessFromDict (w.toDict keyStr version) = w.restore keyStr := by
  obtain ⟨key, ids, witnesses⟩ := w
  unfold predWitnessFromDict PredWitness.toDict PredWitness.restore
  cases version with
  | none =>
    cases witnesses with
    | some captures => cases h
    | none =>
      simp only [row, mapping, ok_bind, List.append_nil]
      simp [item, get?, Dict.get?, readWitnesses, elements, mapOk_text, text, str,
        restoreWitnesses]
  | some version =>
    cases witnesses with
    | none => cases h
    | some captures =>
      have hread : mapOk witnessCaptureFromDict (captures.map (WitnessCapture.toDict keyStr)) =
          mapOk (WitnessCapture.restore keyStr) captures := by
        rw [mapOk_comp]
        exact mapOk_congr fun c _ => witnessCaptureFromDict_toDict c
      simp only [row, mapping, ok_bind, Option.getD_some]
      simp [item, get?, Dict.get?, readWitnesses, elements, mapOk_text, text, str,
        restoreWitnesses, hread]

theorem ruleRefEdgeFromDict_toDict (e : RuleRefEdge) :
    ruleRefEdgeFromDict (e.toDict : PyObj K) = (do e.postInit; .ok e) := by
  unfold ruleRefEdgeFromDict RuleRefEdge.toDict
  simp only [row, mapping, ok_bind]
  simp [item, get?, Dict.get?, text, str, optionalText_optional]

/-- A receipt, written and read. -/
def ProofReceipt.restore (keyStr : K → String) (r : ProofReceipt K) :
    Except SupportErr (ProofReceipt K) := do
  let bindingItems ← mapOk (restoreItem keyStr) r.bindingItems
  let predWitnesses ← mapOk (PredWitness.restore keyStr) r.predWitnesses
  let nonFactSteps ← mapOk (NonFactStep.restore keyStr) r.nonFactSteps
  each RuleRefEdge.postInit r.ruleRefEdges
  let receipt : ProofReceipt K := { r with bindingItems, predWitnesses, nonFactSteps }
  receipt.postInit
  .ok receipt

theorem mapOk_check {ε α : Type} (f : α → Except ε Unit) (as : List α) :
    mapOk (fun a => do f a; .ok a) as = (do each f as; .ok as) := by
  induction as with
  | nil => rfl
  | cons a as ih =>
    rw [mapOk, each, ih]
    cases f a with
    | error e => rfl
    | ok u => cases each f as <;> rfl

theorem supportArtifactFromDict_toDict {r : ProofReceipt K}
    (h : ∀ w ∈ r.predWitnesses, w.witnesses.isSome = r.witnessCaptureVersion.isSome) :
    supportArtifactFromDict (supportArtifactToDict keyStr r) = r.restore keyStr := by
  have hrows : mapOk predWitnessFromDict
      (r.predWitnesses.map (PredWitness.toDict keyStr r.witnessCaptureVersion)) =
        mapOk (PredWitness.restore keyStr) r.predWitnesses := by
    rw [mapOk_comp]
    exact mapOk_congr fun w hw => predWitnessFromDict_toDict (h w hw)
  have hsteps : mapOk nonFactStepFromDict (r.nonFactSteps.map (NonFactStep.toDict keyStr)) =
      mapOk (NonFactStep.restore keyStr) r.nonFactSteps := by
    rw [mapOk_comp]
    exact mapOk_congr fun s _ => nonFactStepFromDict_toDict s
  have hedges : mapOk ruleRefEdgeFromDict (r.ruleRefEdges.map (RuleRefEdge.toDict (K := K))) =
      (do each RuleRefEdge.postInit r.ruleRefEdges; .ok r.ruleRefEdges) := by
    rw [mapOk_comp, ← mapOk_check]
    exact mapOk_congr fun e _ => ruleRefEdgeFromDict_toDict e
  unfold supportArtifactFromDict supportArtifactToDict ProofReceipt.restore
  cases hversion : r.witnessCaptureVersion with
  | none =>
    rw [hversion] at hrows
    simp only [row, mapping, ok_bind, List.append_nil]
    simp [item, get?, Dict.get?, elementsOf, elements, mapOk_text, text, str,
      readItems_itemsToJsonable, hrows, hsteps, hedges, captureVersion]
  | some version =>
    rw [hversion] at hrows
    simp only [row, mapping, ok_bind]
    simp [item, get?, Dict.get?, elementsOf, elements, mapOk_text, text, str,
      readItems_itemsToJsonable, hrows, hsteps, hedges, captureVersion]

/-! ## Receipts that come back -/

def ItemEqv (p q : String × PyObj K) : Prop := p.1 = q.1 ∧ eqv p.2 q.2 = true

def WitnessCapture.Eqv (c d : WitnessCapture K) : Prop :=
  c.witnessRef = d.witnessRef ∧ c.kind = d.kind ∧ c.predicateId = d.predicateId ∧
    eqvList c.terms d.terms = true

def PredWitness.Eqv (w v : PredWitness K) : Prop :=
  w.predConditionKey = v.predConditionKey ∧ w.asrtIds = v.asrtIds ∧
    Option.Rel (List.Forall₂ WitnessCapture.Eqv) w.witnesses v.witnesses

def NonFactStep.Eqv (s t : NonFactStep K) : Prop :=
  s.stepKey = t.stepKey ∧ s.kind = t.kind ∧ s.status = t.status ∧
    List.Forall₂ ItemEqv s.details t.details

/-- `x == y`, field by field. -/
structure ProofReceipt.Eqv (x y : ProofReceipt K) : Prop where
  kind : x.kind = y.kind
  rootResultKind : x.rootResultKind = y.rootResultKind
  bindingItems : List.Forall₂ ItemEqv x.bindingItems y.bindingItems
  predWitnesses : List.Forall₂ PredWitness.Eqv x.predWitnesses y.predWitnesses
  nonFactSteps : List.Forall₂ NonFactStep.Eqv x.nonFactSteps y.nonFactSteps
  ruleRefs : x.ruleRefs = y.ruleRefs
  ruleRefEdges : x.ruleRefEdges = y.ruleRefEdges
  witnessCaptureVersion : x.witnessCaptureVersion = y.witnessCaptureVersion

/-- All values that a receipt holds: of its bindings, its details and its captured terms. -/
structure ProofReceipt.All (P : PyObj K → Prop) (r : ProofReceipt K) : Prop where
  bindings : ∀ p ∈ r.bindingItems, P p.2
  details : ∀ s ∈ r.nonFactSteps, ∀ p ∈ s.details, P p.2
  terms : ∀ w ∈ r.predWitnesses, ∀ captures, w.witnesses = some captures →
    ∀ c ∈ captures, ∀ t ∈ c.terms, P t

/-- The constructors have accepted the receipt and its parts. -/
structure ProofReceipt.Accepted (r : ProofReceipt K) : Prop where
  receipt : r.postInit = .ok ()
  rows : ∀ w ∈ r.predWitnesses, w.postInit = .ok ()
  captures : ∀ w ∈ r.predWitnesses, ∀ captures, w.witnesses = some captures →
    ∀ c ∈ captures, c.postInit = .ok ()
  steps : ∀ s ∈ r.nonFactSteps, s.postInit = .ok ()
  edges : ∀ e ∈ r.ruleRefEdges, e.postInit = .ok ()

theorem witnesses_isSome {r : ProofReceipt K} (h : r.postInit = .ok ()) :
    ∀ w ∈ r.predWitnesses, w.witnesses.isSome = r.witnessCaptureVersion.isSome := by
  unfold ProofReceipt.postInit at h
  obtain ⟨hversion, h⟩ := bind_unit_ok_iff.mp h
  obtain ⟨hcover, -⟩ := bind_unit_ok_iff.mp h
  rw [require_ok_iff, decide_eq_true_eq] at hversion
  rw [require_ok_iff, List.all_eq_true] at hcover
  intro w hw
  have hw' := of_decide_eq_true (hcover w hw)
  rw [hw']
  simp only [List.mem_cons, List.not_mem_nil, or_false] at hversion
  rcases hversion with hversion | hversion <;> simp [hversion]

theorem mapOk_self {ε α : Type} {f : α → Except ε α} {as : List α} (h : ∀ a ∈ as, f a = .ok a) :
    mapOk f as = .ok as := by
  rw [mapOk_ok_iff, List.forall₂_same]
  exact h

omit [DecidableEq K] in
theorem keptList_iff {xs : List (PyObj K)} : KeptList xs ↔ ∀ x ∈ xs, Kept x := by
  induction xs with
  | nil => simp [KeptList]
  | cons x xs ih => simp [KeptList, ih]

omit [DecidableEq K] in
theorem listedAll_iff {xs : List (PyObj K)} : ListedAll keyStr xs ↔ ∀ x ∈ xs, Listed keyStr x := by
  induction xs with
  | nil => simp [ListedAll]
  | cons x xs ih => simp [ListedAll, ih]

theorem restoreItem_of_kept {p : String × PyObj K} (hl : Listed keyStr p.2) (h : Kept p.2) :
    restoreItem keyStr p = .ok p := by
  unfold restoreItem
  rw [fromJsonable_toJsonable p.2 hl h]
  rfl

/-- A receipt whose values are kept comes back as it is. -/
theorem restore_of_kept {r : ProofReceipt K} (haccepted : r.Accepted) (hl : r.All (Listed keyStr))
    (h : r.All Kept) : r.restore keyStr = .ok r := by
  have hitems : mapOk (restoreItem keyStr) r.bindingItems = .ok r.bindingItems :=
    mapOk_self fun p hp => restoreItem_of_kept (hl.bindings p hp) (h.bindings p hp)
  have hsteps : mapOk (NonFactStep.restore keyStr) r.nonFactSteps = .ok r.nonFactSteps := by
    refine mapOk_self fun s hs => ?_
    have hdetails : mapOk (restoreItem keyStr) s.details = .ok s.details :=
      mapOk_self fun p hp => restoreItem_of_kept (hl.details s hs p hp) (h.details s hs p hp)
    unfold NonFactStep.restore
    rw [hdetails, ok_bind]
    show (s.postInit >>= fun _ => .ok s) = _
    rw [haccepted.steps s hs, ok_bind]
  have hrows : mapOk (PredWitness.restore keyStr) r.predWitnesses = .ok r.predWitnesses := by
    refine mapOk_self fun w hw => ?_
    have hwitnesses : restoreWitnesses keyStr w.witnesses = .ok w.witnesses := by
      cases hcaptures : w.witnesses with
      | none => rfl
      | some captures =>
        have hall : mapOk (WitnessCapture.restore keyStr) captures = .ok captures := by
          refine mapOk_self fun c hc => ?_
          have hterms := fromJsonableList_toJsonableList c.terms
            (listedAll_iff.mpr (hl.terms w hw captures hcaptures c hc))
            (keptList_iff.mpr (h.terms w hw captures hcaptures c hc))
          unfold WitnessCapture.restore
          rw [hterms, ok_bind]
          show (c.postInit >>= fun _ => .ok c) = _
          rw [haccepted.captures w hw captures hcaptures c hc, ok_bind]
        show (mapOk (WitnessCapture.restore keyStr) captures >>= fun restored => .ok (some restored)) = _
        rw [hall, ok_bind]
    unfold PredWitness.restore
    rw [hwitnesses, ok_bind]
    show (w.postInit >>= fun _ => .ok w) = _
    rw [haccepted.rows w hw, ok_bind]
  unfold ProofReceipt.restore
  rw [hitems, ok_bind, hrows, ok_bind, hsteps, ok_bind, each_ok_iff.mpr haccepted.edges, ok_bind]
  show (r.postInit >>= fun _ => .ok r) = _
  rw [haccepted.receipt, ok_bind]

theorem both_of_forall₂ {α β : Type} {R : α → β → Prop} {S : β → α → Prop} {as : List α} {bs : List β}
    (h : List.Forall₂ R as bs) (h' : List.Forall₂ S bs as) : ∀ a ∈ as, ∃ b, R a b ∧ S b a := by
  induction h with
  | nil => simp
  | cons hab _ ih =>
    cases h' with
    | cons hba hrest =>
      intro a ha
      rcases List.mem_cons.mp ha with rfl | ha
      · exact ⟨_, hab, hba⟩
      · exact ih hrest a ha

theorem kept_of_items {items items' : Items K} (hl : ∀ p ∈ items, Listed keyStr p.2)
    (hread : mapOk (restoreItem keyStr) items = .ok items')
    (heqv : List.Forall₂ ItemEqv items' items) : ∀ p ∈ items, Kept p.2 := by
  intro p hp
  obtain ⟨p', hp', hsame⟩ := both_of_forall₂ (mapOk_ok_iff.mp hread) heqv p hp
  unfold restoreItem at hp'
  obtain ⟨w, hw, hp'⟩ := bind_ok_iff.mp hp'
  cases hp'
  exact kept_of_restored p.2 (hl p hp) ⟨w, hw, hsame.2⟩

/-- A receipt that comes back has values that come back. -/
theorem kept_of_restore {r y : ProofReceipt K} (hl : r.All (Listed keyStr))
    (hread : r.restore keyStr = .ok y) (heqv : y.Eqv r) : r.All Kept := by
  unfold ProofReceipt.restore at hread
  obtain ⟨bindingItems, hitems, hread⟩ := bind_ok_iff.mp hread
  obtain ⟨predWitnesses, hrows, hread⟩ := bind_ok_iff.mp hread
  obtain ⟨nonFactSteps, hsteps, hread⟩ := bind_ok_iff.mp hread
  obtain ⟨-, hread⟩ := bind_unit_ok_iff.mp hread
  obtain ⟨-, hread⟩ := bind_unit_ok_iff.mp hread
  cases hread
  refine ⟨kept_of_items hl.bindings hitems heqv.bindingItems, ?_, ?_⟩
  · intro s hs
    obtain ⟨s', hs', hsame⟩ := both_of_forall₂ (mapOk_ok_iff.mp hsteps) heqv.nonFactSteps s hs
    unfold NonFactStep.restore at hs'
    obtain ⟨details, hdetails, hs'⟩ := bind_ok_iff.mp hs'
    obtain ⟨-, hs'⟩ := bind_unit_ok_iff.mp hs'
    cases hs'
    exact kept_of_items (hl.details s hs) hdetails hsame.2.2.2
  · intro w hw captures hcaptures c hc
    obtain ⟨w', hw', hsame⟩ := both_of_forall₂ (mapOk_ok_iff.mp hrows) heqv.predWitnesses w hw
    unfold PredWitness.restore at hw'
    obtain ⟨witnesses, hwitnesses, hw'⟩ := bind_ok_iff.mp hw'
    obtain ⟨-, hw'⟩ := bind_unit_ok_iff.mp hw'
    cases hw'
    have hrel := hsame.2.2
    rw [hcaptures] at hwitnesses hrel
    obtain ⟨restored, hrestored, hwitnesses⟩ := bind_ok_iff.mp hwitnesses
    cases hwitnesses
    cases hrel with
    | some hrel =>
      obtain ⟨c', hc', hcsame⟩ := both_of_forall₂ (mapOk_ok_iff.mp hrestored) hrel c hc
      unfold WitnessCapture.restore at hc'
      obtain ⟨terms, hterms, hc'⟩ := bind_ok_iff.mp hc'
      obtain ⟨-, hc'⟩ := bind_unit_ok_iff.mp hc'
      cases hc'
      exact keptList_iff.mp (keptList_of_restored c.terms
        (listedAll_iff.mpr (hl.terms w hw captures hcaptures c hc)) hterms hcsame.2.2.2)

theorem eqv_self {r : ProofReceipt K} (hl : r.All (Listed keyStr)) : r.Eqv r where
  kind := rfl
  rootResultKind := rfl
  bindingItems := List.forall₂_same.mpr fun p hp => ⟨rfl, eqv_refl p.2 (hl.bindings p hp)⟩
  predWitnesses := by
    refine List.forall₂_same.mpr fun w hw => ⟨rfl, rfl, ?_⟩
    cases hcaptures : w.witnesses with
    | none => exact .none
    | some captures =>
      refine .some (List.forall₂_same.mpr fun c hc => ⟨rfl, rfl, rfl, ?_⟩)
      exact eqvList_refl c.terms (listedAll_iff.mpr (hl.terms w hw captures hcaptures c hc))
  nonFactSteps := List.forall₂_same.mpr fun s hs =>
    ⟨rfl, rfl, rfl, List.forall₂_same.mpr fun p hp => ⟨rfl, eqv_refl p.2 (hl.details s hs p hp)⟩⟩
  ruleRefs := rfl
  ruleRefEdges := rfl
  witnessCaptureVersion := rfl

/-! ## Envelopes -/

/-- `ProvenanceEnvelope`; the payload is listed as `dict`s are here. -/
structure ProvenanceEnvelope (K : Type) where
  candidateId : String
  engine : String
  payloadType : String
  payload : List (Key K × PyObj K)

/-- `ProvenanceEnvelope.__post_init__`. -/
def ProvenanceEnvelope.postInit (e : ProvenanceEnvelope K) : Except SupportErr Unit := do
  require (e.candidateId ≠ "")
    (.valueError "ProvenanceEnvelope.candidate_id must be non-empty string")
  require (e.engine ≠ "") (.valueError "ProvenanceEnvelope.engine must be non-empty string")
  require (e.payloadType ≠ "")
    (.valueError "ProvenanceEnvelope.payload_type must be non-empty string")

/-- `provenance_envelope_to_dict`. -/
def provenanceEnvelopeToDict (keyStr : K → String) (e : ProvenanceEnvelope K) : PyObj K :=
  row [("candidate_id", str e.candidateId), ("engine", str e.engine),
    ("payload_type", str e.payloadType), ("payload", toJsonable keyStr (.dict e.payload))]

/-- A field of the payload that is read. -/
def readField (keyStr : K → String) (p : Key K × PyObj K) : Except SupportErr (Key K × PyObj K) := do
  let value ← fromJsonable p.2
  .ok (.str (p.1.text keyStr), value)

/-- `provenance_envelope_from_dict`. -/
def provenanceEnvelopeFromDict (keyStr : K → String) (v : PyObj K) :
    Except SupportErr (ProvenanceEnvelope K) := do
  let fields ← mapping (.valueError "row must be Mapping[str, Any]") v
  let written ← mapping (.valueError "row.payload must be Mapping[str, Any]")
    ((get? fields "payload").getD (.leaf .none))
  let candidateId ← item fields "candidate_id"
  let engine ← item fields "engine"
  let payloadType ← item fields "payload_type"
  let restored ← mapOk (readField keyStr) written
  let candidateId ← text "ProvenanceEnvelope.candidate_id must be non-empty string" candidateId
  let engine ← text "ProvenanceEnvelope.engine must be non-empty string" engine
  let payloadType ← text "ProvenanceEnvelope.payload_type must be non-empty string" payloadType
  let envelope : ProvenanceEnvelope K :=
    { candidateId, engine, payloadType, payload := Dict.update [] restored }
  envelope.postInit
  .ok envelope

structure ProvenanceEnvelope.Eqv (x y : ProvenanceEnvelope K) : Prop where
  candidateId : x.candidateId = y.candidateId
  engine : x.engine = y.engine
  payloadType : x.payloadType = y.payloadType
  payload : eqv (.dict x.payload) (.dict y.payload) = true

/-- The keys of the payload are strings, and its values are kept. -/
def ProvenanceEnvelope.Kept (e : ProvenanceEnvelope K) : Prop :=
  ∀ p ∈ e.payload, (∃ k, p.1 = .str k) ∧ Support.Kept p.2

theorem provenanceEnvelopeFromDict_toDict (e : ProvenanceEnvelope K) :
    provenanceEnvelopeFromDict keyStr (provenanceEnvelopeToDict keyStr e) = (do
      let restored ← mapOk (readField keyStr) (Dict.update [] (toJsonableFields keyStr e.payload))
      let envelope : ProvenanceEnvelope K := { e with payload := Dict.update [] restored }
      envelope.postInit
      .ok envelope) := by
  unfold provenanceEnvelopeFromDict provenanceEnvelopeToDict
  simp only [row, mapping, ok_bind]
  simp [item, get?, Dict.get?, toJsonable, text, str]

omit [DecidableEq K] in
theorem keys_of_readField {fs gs : List (Key K × PyObj K)} (h : mapOk (readField keyStr) fs = .ok gs)
    (hstr : ∀ k ∈ Dict.keys fs, ∃ s, k = .str s) : Dict.keys gs = Dict.keys fs := by
  rw [mapOk_ok_iff] at h
  induction h with
  | nil => rfl
  | cons hp _ ih =>
    unfold readField at hp
    obtain ⟨value, -, hp⟩ := bind_ok_iff.mp hp
    cases hp
    obtain ⟨s, hs⟩ := hstr _ List.mem_cons_self
    have htail := ih fun k hk => hstr k (List.mem_cons_of_mem _ hk)
    unfold Dict.keys at htail ⊢
    rw [List.map_cons, List.map_cons, htail, hs]
    rfl

/-- The payload that is read of one that was written has its keys. -/
theorem update_restored {fs gs : List (Key K × PyObj K)}
    (h : mapOk (readField keyStr) (Dict.update [] (toJsonableFields keyStr fs)) = .ok gs) :
    Dict.update [] gs = gs ∧ (Dict.keys gs).Nodup ∧ ∀ k ∈ Dict.keys gs, ∃ s, k = .str s := by
  obtain ⟨hnodup, hstr⟩ := @keys_update_toJsonableFields K _ keyStr fs
  rw [← keys_of_readField h hstr] at hnodup hstr
  exact ⟨Dict.update_append (by simpa using hnodup), hnodup, hstr⟩

theorem envelope_kept_of_restored {e y : ProvenanceEnvelope K} (hl : Listed keyStr (.dict e.payload))
    (hread : provenanceEnvelopeFromDict keyStr (provenanceEnvelopeToDict keyStr e) = .ok y)
    (heqv : y.Eqv e) : e.Kept := by
  rw [provenanceEnvelopeFromDict_toDict] at hread
  obtain ⟨restored, hrestored, hread⟩ := bind_ok_iff.mp hread
  obtain ⟨-, hread⟩ := bind_unit_ok_iff.mp hread
  cases hread
  have hpayload := heqv.payload
  obtain ⟨hsame, hnodup, hkeys⟩ := update_restored hrestored
  simp only [hsame] at hpayload
  have hstr := keys_of_eqv hnodup hkeys hpayload
  rw [update_toJsonableFields hl.1 hstr] at hrestored
  rw [eqv, Bool.and_eq_true, eqvFields_iff] at hpayload
  intro p hp
  refine ⟨hstr p hp, kept_of_restored p.2 (listedFields_iff.mp hl.2.2 p hp) ?_⟩
  obtain ⟨q, hq, hfield⟩ := image_of_mapOk hrestored (List.mem_map.mpr ⟨p, hp, rfl⟩)
  unfold readField at hfield
  obtain ⟨value, hvalue, hfield⟩ := bind_ok_iff.mp hfield
  cases hfield
  obtain ⟨x, hx, hxeqv⟩ := hpayload.2 _ hq
  obtain ⟨k, hk⟩ := hstr p hp
  have hkey : (Key.str (p.1.text keyStr) : Key K) = p.1 := by
    rw [hk]
    rfl
  simp only [hkey, (Dict.get?_eq_some_iff hl.1).mpr hp] at hx
  cases hx
  exact ⟨value, hvalue, hxeqv⟩

theorem envelope_restored_of_kept {e : ProvenanceEnvelope K} (haccepted : e.postInit = .ok ())
    (hl : Listed keyStr (.dict e.payload)) (h : e.Kept) :
    provenanceEnvelopeFromDict keyStr (provenanceEnvelopeToDict keyStr e) = .ok e := by
  have hread : mapOk (readField keyStr) (Dict.update [] (toJsonableFields keyStr e.payload)) =
      .ok e.payload := by
    rw [update_toJsonableFields hl.1 fun p hp => (h p hp).1, mapOk_comp]
    refine mapOk_self fun p hp => ?_
    obtain ⟨⟨k, hk⟩, hkept⟩ := h p hp
    obtain ⟨key, value⟩ := p
    unfold readField
    rw [fromJsonable_toJsonable value (listedFields_iff.mp hl.2.2 _ hp) hkept, ok_bind]
    simp only at hk
    rw [hk]
    rfl
  rw [provenanceEnvelopeFromDict_toDict, hread, ok_bind, (update_restored hread).1]
  show (e.postInit >>= fun _ => .ok e) = _
  rw [haccepted, ok_bind]

/-! ## Round trips -/

mutual

/-- What `json.dumps` writes, where it writes an object without a `TypeError`. Keys are strings. -/
def json? : PyObj K → Option Json
  | .leaf .none => some (.leaf .null)
  | .leaf (.bool b) => some (.leaf (.bool b))
  | .leaf (.int i) => some (.leaf (.int i))
  | .leaf (.float x) => some (.leaf (.float x))
  | .leaf (.str s) => some (.leaf (.str s))
  | .leaf (.bytes _) => none
  | .list xs => (jsonList? xs).map .arr
  | .tuple xs => (jsonList? xs).map .arr
  | .dict fs => (jsonFields? fs).map .obj

def jsonList? : List (PyObj K) → Option (List Json)
  | [] => some []
  | x :: xs => do
      let y ← json? x
      let ys ← jsonList? xs
      some (y :: ys)

def jsonFields? : List (Key K × PyObj K) → Option (List (String × Json))
  | [] => some []
  | (.str k, x) :: fs => do
      let y ← json? x
      let ys ← jsonFields? fs
      some ((k, y) :: ys)
  | (.other _, _) :: _ => none

end

/-- `sha256_token` of the canonical text of a `dict`. -/
def digest? (host : Db.Host) (v : PyObj K) : Option String :=
  (json? v).map fun d => sha256Token host.sha256 (utf8 (jsonDumps jsonEscaping host.floatRepr (sortKeys d)))

/-- `compute_support_digest`. -/
def computeSupportDigest (host : Db.Host) (keyStr : K → String) (r : ProofReceipt K) : Option String :=
  digest? host (supportArtifactToDict keyStr r)

/-- `compute_provenance_digest`. -/
def computeProvenanceDigest (host : Db.Host) (keyStr : K → String) (e : ProvenanceEnvelope K) :
    Option String :=
  digest? host (provenanceEnvelopeToDict keyStr e)

/-- A receipt or an envelope that the constructors accept comes back, with its digest, just if each
value it holds is kept: no tuple, no bytes inside a `dict` nor a key there but strings, no `dict` whose
one key is that of written bytes. -/
theorem support_roundtrip_iff (host : Db.Host) (keyStr : K → String) :
    (∀ r : ProofReceipt K, r.Accepted → r.All (Listed keyStr) →
      ((∃ y, supportArtifactFromDict (supportArtifactToDict keyStr r) = .ok y ∧ y.Eqv r ∧
        computeSupportDigest host keyStr y = computeSupportDigest host keyStr r) ↔ r.All Kept)) ∧
    ∀ e : ProvenanceEnvelope K, e.postInit = .ok () → Listed keyStr (.dict e.payload) →
      ((∃ y, provenanceEnvelopeFromDict keyStr (provenanceEnvelopeToDict keyStr e) = .ok y ∧ y.Eqv e ∧
        computeProvenanceDigest host keyStr y = computeProvenanceDigest host keyStr e) ↔ e.Kept) := by
  constructor
  · intro r haccepted hl
    have hread := @supportArtifactFromDict_toDict K _ keyStr r (witnesses_isSome haccepted.receipt)
    rw [hread]
    constructor
    · intro ⟨y, hy, heqv, _⟩
      exact kept_of_restore hl hy heqv
    · intro h
      exact ⟨r, restore_of_kept haccepted hl h, eqv_self hl, rfl⟩
  · intro e haccepted hl
    constructor
    · intro ⟨y, hy, heqv, _⟩
      exact envelope_kept_of_restored hl hy heqv
    · intro h
      exact ⟨e, envelope_restored_of_kept haccepted hl h, ⟨rfl, rfl, rfl, eqv_refl _ hl⟩, rfl⟩

/-- A receipt with bytes in a list of its binding. -/
def sampleReceipt : ProofReceipt Empty where
  kind := "native_binding_v1"
  rootResultKind := "row"
  bindingItems := [("$b", .list [.leaf (.bytes [1, 2])])]
  predWitnesses := [⟨"c0.c0:p", ["a1"], none⟩]
  nonFactSteps := [⟨"c0.c1:eq", "eq", "ok", [("lhs", .leaf (.int 1))]⟩]
  ruleRefs := []
  ruleRefEdges := []
  witnessCaptureVersion := none

/-- An envelope with bytes under a key of its payload. -/
def sampleEnvelope (value : PyObj Empty) : ProvenanceEnvelope Empty where
  candidateId := "cand_v2:1"
  engine := "souffle"
  payloadType := "t"
  payload := [(.str "a", value)]

def noKeys : Empty → String := fun k => nomatch k

/-- A digest that is the identity. -/
def sampleHost : Db.Host where
  sha256 := id
  shake256 := fun _ => .empty
  floatRepr := bitsRepr

theorem sampleReceipt_accepted : sampleReceipt.Accepted where
  receipt := by decide
  rows := by
    intro w hw
    rw [List.mem_singleton.mp hw]
    decide
  captures := by
    intro w hw captures hcaptures
    rw [List.mem_singleton.mp hw] at hcaptures
    cases hcaptures
  steps := by
    intro s hs
    rw [List.mem_singleton.mp hs]
    decide
  edges := by
    intro e he
    cases he

/-- The values of the sample, one by one. -/
theorem sampleReceipt_all {P : PyObj Empty → Prop} (hbytes : P (.list [.leaf (.bytes [1, 2])]))
    (hint : P (.leaf (.int 1))) : sampleReceipt.All P where
  bindings := by
    intro p hp
    rw [List.mem_singleton.mp hp]
    exact hbytes
  details := by
    intro s hs p hp
    rw [List.mem_singleton.mp hs] at hp
    rw [List.mem_singleton.mp hp]
    exact hint
  terms := by
    intro w hw captures hcaptures
    rw [List.mem_singleton.mp hw] at hcaptures
    cases hcaptures

/-- Bytes in a list come back, of a receipt and of an envelope. -/
theorem support_roundtrip_sample :
    (∃ y, supportArtifactFromDict (supportArtifactToDict noKeys sampleReceipt) = .ok y ∧
      y.Eqv sampleReceipt ∧
      computeSupportDigest sampleHost noKeys y = computeSupportDigest sampleHost noKeys sampleReceipt) ∧
    ∃ y, provenanceEnvelopeFromDict noKeys
        (provenanceEnvelopeToDict noKeys (sampleEnvelope (.leaf (.bytes [1])))) = .ok y ∧
      y.Eqv (sampleEnvelope (.leaf (.bytes [1]))) ∧
      computeProvenanceDigest sampleHost noKeys y =
        computeProvenanceDigest sampleHost noKeys (sampleEnvelope (.leaf (.bytes [1]))) := by
  have htrip := support_roundtrip_iff sampleHost noKeys
  constructor
  · refine (htrip.1 sampleReceipt sampleReceipt_accepted ?_).mpr ?_
    · exact sampleReceipt_all ⟨trivial, trivial⟩ trivial
    · exact sampleReceipt_all ⟨trivial, trivial⟩ trivial
  · refine (htrip.2 (sampleEnvelope (.leaf (.bytes [1]))) (by decide) ?_).mpr ?_
    · exact ⟨by simp [Dict.keys, sampleEnvelope], by simp [sampleEnvelope], trivial, trivial⟩
    · intro p hp
      rw [List.mem_singleton.mp hp]
      exact ⟨⟨"a", rfl⟩, trivial⟩

/-- Bytes inside a `dict` of the payload come back as what was written of them. -/
theorem nested_bytes_lost :
    (sampleEnvelope (.dict [(.str "b", .leaf (.bytes [0]))])).postInit = .ok () ∧
      provenanceEnvelopeFromDict noKeys (provenanceEnvelopeToDict noKeys
          (sampleEnvelope (.dict [(.str "b", .leaf (.bytes [0]))]))) =
        .ok (sampleEnvelope (.dict [(.str "b", .dict [(.str "__bytes_hex__", .leaf (.str "00"))])])) ∧
      ¬ (sampleEnvelope (.dict [(.str "b", .dict [(.str "__bytes_hex__", .leaf (.str "00"))])])).Eqv
        (sampleEnvelope (.dict [(.str "b", .leaf (.bytes [0]))])) := by
  refine ⟨by decide, rfl, ?_⟩
  intro heqv
  exact absurd heqv.payload (by decide)

end FactGraph.Codec.Support
