import FactGraph.Codec.Receipts

/-!
# Artifacts as texts

The artifacts a sidecar keeps and the texts it keeps them as: `RuleTraceArtifact` of
`core/rules/_trace.py`, with what the constructors check, and the JSON texts of traces and of
receipts (`rule_trace_artifact_bytes`, `support_artifact_bytes`).

A field that is annotated as a tuple is one. `_to_jsonable` and `_from_jsonable` are the same there
as for receipts, but the where clauses of an invocation are read as they stand in the text.
-/

namespace FactGraph.Sidecar

open Protocol Store Db JsonText Check Codec Codec.Support

variable {K : Type} [DecidableEq K]

/-! ## Traces -/

/-- `RuleTracePredWitness`. -/
structure RuleTracePredWitness where
  bindingIndex : Int
  predConditionKey : String
  asrtIds : List String

/-- `RuleTracePredWitness.__post_init__`. -/
def RuleTracePredWitness.postInit (w : RuleTracePredWitness) : Except SupportErr Unit := do
  require (0 ≤ w.bindingIndex) (.valueError "binding_index must be non-negative int")
  require (w.predConditionKey ≠ "") (.valueError "pred_condition_key must be non-empty string")
  require (w.asrtIds = (w.asrtIds.filter (· ≠ "")).dedup.insertionSort (· ≤ ·))
    (.valueError "asrt_ids must be sorted unique non-empty strings")

/-- `RuleTraceNonFactStep`. -/
structure RuleTraceNonFactStep (K : Type) where
  bindingIndex : Int
  stepKey : String
  kind : String
  status : String
  details : Items K

/-- `RuleTraceNonFactStep.__post_init__`. -/
def RuleTraceNonFactStep.postInit (s : RuleTraceNonFactStep K) : Except SupportErr Unit := do
  require (0 ≤ s.bindingIndex) (.valueError "binding_index must be non-negative int")
  require (s.stepKey ≠ "") (.valueError "step_key must be non-empty string")
  require (s.kind ≠ "") (.valueError "kind must be non-empty string")
  require (s.status ≠ "") (.valueError "status must be non-empty string")
  checkItems s.details "detail keys must be non-empty strings" "details must be sorted detail tuples"

/-- `RuleTraceRuleRefLink`. -/
structure RuleTraceRuleRefLink where
  rulerefConditionKey : String
  childInvocationId : String

/-- `RuleTraceRuleRefLink.__post_init__`. -/
def RuleTraceRuleRefLink.postInit (l : RuleTraceRuleRefLink) : Except SupportErr Unit := do
  require (l.rulerefConditionKey ≠ "")
    (.valueError "ruleref_condition_key must be non-empty string")
  require (l.childInvocationId ≠ "") (.valueError "child_invocation_id must be non-empty string")

/-- `RuleTraceInvocation`. -/
structure RuleTraceInvocation (K : Type) where
  invocationId : String
  parentInvocationId : Option String
  ruleId : String
  version : String
  memoHit : Bool
  memoSourceInvocationId : Option String
  originalWhere : PyObj K
  rewrittenWhere : PyObj K
  bindings : List (Items K)
  outputRows : List (List (PyObj K))
  predWitnesses : List RuleTracePredWitness
  nonFactSteps : List (RuleTraceNonFactStep K)
  rulerefLinks : List RuleTraceRuleRefLink

/-- The order of pairs of a number and a string. -/
def indexedLe (a b : Int × String) : Bool := a.1 < b.1 || (a.1 = b.1 && a.2 ≤ b.2)

/-- `RuleTraceInvocation.__post_init__`. A binding passes through a `dict`, so its keys differ. -/
def RuleTraceInvocation.postInit (i : RuleTraceInvocation K) : Except SupportErr Unit := do
  require (i.invocationId ≠ "") (.valueError "invocation_id must be non-empty string")
  require (i.parentInvocationId ≠ some "")
    (.valueError "parent_invocation_id must be None or non-empty string")
  require (i.ruleId ≠ "") (.valueError "rule_id must be non-empty string")
  require (i.version ≠ "") (.valueError "version must be non-empty string")
  require (i.memoSourceInvocationId ≠ some "")
    (.valueError "memo_source_invocation_id must be None or non-empty string")
  require (i.bindings.all fun binding => binding.all fun p => startsWith "$" p.1)
    (.valueError "binding keys must be variable names prefixed with '$'")
  require (i.bindings.all fun binding => binding.Pairwise fun p q => p.1 < q.1)
    (.valueError "bindings must be sorted binding tuples")
  require (i.predWitnesses.Pairwise fun w v =>
      indexedLe (w.bindingIndex, w.predConditionKey) (v.bindingIndex, v.predConditionKey) = true)
    (.valueError "pred_witnesses must be sorted by binding_index and pred_condition_key")
  require (i.nonFactSteps.Pairwise fun s t =>
      indexedLe (s.bindingIndex, s.stepKey) (t.bindingIndex, t.stepKey) = true)
    (.valueError "non_fact_steps must be sorted by binding_index and step_key")
  require (i.rulerefLinks.Pairwise fun l m => l.rulerefConditionKey ≤ m.rulerefConditionKey)
    (.valueError "ruleref_links must be sorted by ruleref_condition_key")

/-- `RuleTraceArtifact`. -/
structure RuleTraceArtifact (K : Type) where
  ruleRunId : String
  rootRuleId : String
  rootVersion : String
  selectVars : List String
  invocations : List (RuleTraceInvocation K)
  rootRows : List (List (PyObj K))

/-- `RuleTraceArtifact.__post_init__`. -/
def RuleTraceArtifact.postInit (a : RuleTraceArtifact K) : Except SupportErr Unit := do
  require (a.ruleRunId ≠ "") (.valueError "rule_run_id must be non-empty string")
  require (a.rootRuleId ≠ "") (.valueError "root_rule_id must be non-empty string")
  require (a.rootVersion ≠ "") (.valueError "root_version must be non-empty string")
  require (!a.selectVars.isEmpty && a.selectVars.all (startsWith "$" ·))
    (.valueError "select_vars must be non-empty '$'-prefixed variable names")

/-! ## Writing -/

def rowsToJsonable (keyStr : K → String) (rows : List (List (PyObj K))) : PyObj K :=
  .list (rows.map fun r => .list (r.map (toJsonable keyStr)))

def RuleTracePredWitness.toDict (w : RuleTracePredWitness) : PyObj K :=
  row [("binding_index", .leaf (.int w.bindingIndex)),
    ("pred_condition_key", str w.predConditionKey), ("asrt_ids", .list (w.asrtIds.map str))]

def RuleTraceNonFactStep.toDict (keyStr : K → String) (s : RuleTraceNonFactStep K) : PyObj K :=
  row [("binding_index", .leaf (.int s.bindingIndex)), ("step_key", str s.stepKey),
    ("kind", str s.kind), ("status", str s.status), ("details", itemsToJsonable keyStr s.details)]

def RuleTraceRuleRefLink.toDict (l : RuleTraceRuleRefLink) : PyObj K :=
  row [("ruleref_condition_key", str l.rulerefConditionKey),
    ("child_invocation_id", str l.childInvocationId)]

def RuleTraceInvocation.toDict (keyStr : K → String) (i : RuleTraceInvocation K) : PyObj K :=
  row [("invocation_id", str i.invocationId),
    ("parent_invocation_id", optional i.parentInvocationId),
    ("rule", row [("rule_id", str i.ruleId), ("version", str i.version)]),
    ("memo_hit", .leaf (.bool i.memoHit)),
    ("memo_source_invocation_id", optional i.memoSourceInvocationId),
    ("original_where", toJsonable keyStr i.originalWhere),
    ("rewritten_where", toJsonable keyStr i.rewrittenWhere),
    ("bindings", .list (i.bindings.map (itemsToJsonable keyStr))),
    ("output_rows", rowsToJsonable keyStr i.outputRows),
    ("pred_witnesses", .list (i.predWitnesses.map (·.toDict))),
    ("non_fact_steps", .list (i.nonFactSteps.map (·.toDict keyStr))),
    ("ruleref_links", .list (i.rulerefLinks.map (·.toDict)))]

/-- `rule_trace_artifact_to_dict`. -/
def ruleTraceArtifactToDict (keyStr : K → String) (a : RuleTraceArtifact K) : PyObj K :=
  row [("rule_run_id", str a.ruleRunId),
    ("root_rule", row [("rule_id", str a.rootRuleId), ("version", str a.rootVersion)]),
    ("select_vars", .list (a.selectVars.map str)),
    ("invocations", .list (a.invocations.map (·.toDict keyStr))),
    ("root_rows", rowsToJsonable keyStr a.rootRows)]

/-! ## Reading -/

/-- A field that a constructor wants to be a number; a `bool` is one. -/
def number (msg : String) : PyObj K → Except SupportErr Int
  | .leaf (.int i) => .ok i
  | .leaf (.bool b) => .ok (if b then 1 else 0)
  | _ => .error (.valueError msg)

/-- A field that a constructor wants to be a `bool`. -/
def flag (msg : String) : PyObj K → Except SupportErr Bool
  | .leaf (.bool b) => .ok b
  | _ => .error (.valueError msg)

/-- The fields of a value that is indexed by strings. -/
def subscripted : PyObj K → Except SupportErr (List (Key K × PyObj K)) :=
  mapping (.typeError "object is not subscriptable")

def readRow (v : PyObj K) : Except SupportErr (List (PyObj K)) := do
  let items ← elements v
  mapOk fromJsonable items

def readRows (v : PyObj K) : Except SupportErr (List (List (PyObj K))) := do
  let rows ← elements v
  mapOk readRow rows

/-- An id that is not a string drops out of the sorted ids, which then are not those given. -/
def ruleTracePredWitnessFromDict (v : PyObj K) : Except SupportErr RuleTracePredWitness := do
  let fields ← subscripted v
  let bindingIndex ← item fields "binding_index"
  let predConditionKey ← item fields "pred_condition_key"
  let asrtIds ← item fields "asrt_ids"
  let asrtIds ← elements asrtIds
  let bindingIndex ← number "binding_index must be non-negative int" bindingIndex
  let predConditionKey ← text "pred_condition_key must be non-empty string" predConditionKey
  let asrtIds ← mapOk (text "asrt_ids must be sorted unique non-empty strings") asrtIds
  let witness : RuleTracePredWitness := ⟨bindingIndex, predConditionKey, asrtIds⟩
  witness.postInit
  .ok witness

/-- `_LEGACY_STATUS_MAP`. -/
def legacyStatusMap : List (String × String) := [("no_match", "negated"), ("satisfied", "evaluated")]

/-- `_normalize_non_fact_status`. A status that is no string is refused by the constructor. -/
def normalizeNonFactStatus (status : String) : String :=
  (Dict.get? legacyStatusMap status).getD status

def ruleTraceNonFactStepFromDict (v : PyObj K) : Except SupportErr (RuleTraceNonFactStep K) := do
  let fields ← subscripted v
  let bindingIndex ← item fields "binding_index"
  let stepKey ← item fields "step_key"
  let kind ← item fields "kind"
  let status ← item fields "status"
  let details ← item fields "details"
  let details ← readItems "detail keys must be non-empty strings" details
  let bindingIndex ← number "binding_index must be non-negative int" bindingIndex
  let stepKey ← text "step_key must be non-empty string" stepKey
  let kind ← text "kind must be non-empty string" kind
  let status ← text "status must be non-empty string" status
  let step : RuleTraceNonFactStep K :=
    ⟨bindingIndex, stepKey, kind, normalizeNonFactStatus status, details⟩
  step.postInit
  .ok step

def ruleTraceRuleRefLinkFromDict (v : PyObj K) : Except SupportErr RuleTraceRuleRefLink := do
  let fields ← subscripted v
  let rulerefConditionKey ← item fields "ruleref_condition_key"
  let childInvocationId ← item fields "child_invocation_id"
  let rulerefConditionKey ← text "ruleref_condition_key must be non-empty string" rulerefConditionKey
  let childInvocationId ← text "child_invocation_id must be non-empty string" childInvocationId
  let link : RuleTraceRuleRefLink := ⟨rulerefConditionKey, childInvocationId⟩
  link.postInit
  .ok link

/-- `_rule_trace_invocation_from_dict`. The where clauses are taken as they are. -/
def ruleTraceInvocationFromDict (v : PyObj K) : Except SupportErr (RuleTraceInvocation K) := do
  let fields ← subscripted v
  let rule ← item fields "rule"
  let rule ← subscripted rule
  let invocationId ← item fields "invocation_id"
  let parentInvocationId ← item fields "parent_invocation_id"
  let ruleId ← item rule "rule_id"
  let version ← item rule "version"
  let memoHit ← item fields "memo_hit"
  let memoSourceInvocationId ← item fields "memo_source_invocation_id"
  let originalWhere ← item fields "original_where"
  let rewrittenWhere ← item fields "rewritten_where"
  let bindings ← item fields "bindings"
  let bindings ← elements bindings
  let bindings ← mapOk (readItems "binding keys must be variable names prefixed with '$'") bindings
  let outputRows ← item fields "output_rows"
  let outputRows ← readRows outputRows
  let witnesses ← elementsOf fields "pred_witnesses"
  let predWitnesses ← mapOk ruleTracePredWitnessFromDict witnesses
  let steps ← elementsOf fields "non_fact_steps"
  let nonFactSteps ← mapOk ruleTraceNonFactStepFromDict steps
  let links ← elementsOf fields "ruleref_links"
  let rulerefLinks ← mapOk ruleTraceRuleRefLinkFromDict links
  let invocationId ← text "invocation_id must be non-empty string" invocationId
  let parentInvocationId ← optionalText "parent_invocation_id must be None or non-empty string"
    parentInvocationId
  let ruleId ← text "rule_id must be non-empty string" ruleId
  let version ← text "version must be non-empty string" version
  let memoHit ← flag "memo_hit must be bool" memoHit
  let memoSourceInvocationId ← optionalText
    "memo_source_invocation_id must be None or non-empty string" memoSourceInvocationId
  let invocation : RuleTraceInvocation K :=
    { invocationId, parentInvocationId, ruleId, version, memoHit, memoSourceInvocationId
      originalWhere, rewrittenWhere, bindings, outputRows, predWitnesses, nonFactSteps
      rulerefLinks }
  invocation.postInit
  .ok invocation

/-- `rule_trace_artifact_from_dict`. -/
def ruleTraceArtifactFromDict (v : PyObj K) : Except SupportErr (RuleTraceArtifact K) := do
  let fields ← mapping (.valueError "row must be Mapping[str, Any]") v
  let rootRule ← item fields "root_rule"
  let ruleRunId ← item fields "rule_run_id"
  let rootRule ← subscripted rootRule
  let rootRuleId ← item rootRule "rule_id"
  let rootVersion ← item rootRule "version"
  let selectVars ← item fields "select_vars"
  let selectVars ← elements selectVars
  let invocations ← item fields "invocations"
  let invocations ← elements invocations
  let invocations ← mapOk ruleTraceInvocationFromDict invocations
  let rootRows ← item fields "root_rows"
  let rootRows ← readRows rootRows
  let ruleRunId ← text "rule_run_id must be non-empty string" ruleRunId
  let rootRuleId ← text "root_rule_id must be non-empty string" rootRuleId
  let rootVersion ← text "root_version must be non-empty string" rootVersion
  let selectVars ← mapOk (text "select_vars must be non-empty '$'-prefixed variable names") selectVars
  let artifact : RuleTraceArtifact K :=
    { ruleRunId, rootRuleId, rootVersion, selectVars, invocations, rootRows }
  artifact.postInit
  .ok artifact

/-! ## Texts -/

/-- The names from the top of the file system down to a file or a folder. -/
abbrev FilePath := List String

/-- The character that no path may have in it. -/
def nul : Char := Char.ofNat 0

/-- `sidecar_root`, and what writing and reading of texts is done by: `str` of keys that are no
    strings, `repr` and `float` of floats. -/
structure Host (K : Type) where
  root : FilePath
  /-- The root is a path that can be opened. -/
  root_opens : ∀ name ∈ root, nul ∉ name.toList
  keyStr : K → String
  floatRepr : F64 → String
  float? : String → Option F64

/-- A leaf that `json.dumps` writes: `int.__repr__` has a limit on digits. -/
def printable : JsonScalar → Bool
  | .int i => hasDecimal i
  | .null | .bool _ | .float _ | .str _ => true

/-- `json.dumps(row, sort_keys=True, separators=(",", ":"), ensure_ascii=False)`. -/
def dumpsRow (host : Host K) (v : PyObj K) : Except SupportErr String :=
  match json? v with
  | some d =>
      if allLeaves printable d then .ok (jsonDumps jsonEscaping host.floatRepr (sortKeys d))
      else .error (.valueError digitsError)
  | none => .error (.typeError "Object is not JSON serializable")

omit [DecidableEq K] in
theorem dumpsRow_ok_iff {host : Host K} {v : PyObj K} {text : String} :
    dumpsRow host v = .ok text ↔ ∃ d, json? v = some d ∧ allLeaves printable d = true ∧
      jsonDumps jsonEscaping host.floatRepr (sortKeys d) = text := by
  unfold dumpsRow
  cases json? v with
  | none => simp
  | some d =>
    by_cases hd : allLeaves printable d = true
    · simp [hd]
    · simp [hd]

mutual

/-- What `json.loads` makes of a document. -/
def objectOf : Json → PyObj K
  | .leaf .null => .leaf .none
  | .leaf (.bool b) => .leaf (.bool b)
  | .leaf (.int i) => .leaf (.int i)
  | .leaf (.float x) => .leaf (.float x)
  | .leaf (.str s) => .leaf (.str s)
  | .arr xs => .list (objectOfList xs)
  | .obj fs => .dict (objectOfFields fs)

def objectOfList : List Json → List (PyObj K)
  | [] => []
  | x :: xs => objectOf x :: objectOfList xs

def objectOfFields : List (String × Json) → List (Key K × PyObj K)
  | [] => []
  | (k, x) :: fs => (.str k, objectOf x) :: objectOfFields fs

end

/-- `json.loads`, and the check that the row is an object. -/
def loadsRow (host : Host K) (text : String) : Except SupportErr (PyObj K) :=
  match jsonLoads? host.float? text with
  | some (.obj fs) => .ok (objectOf (.obj fs))
  | some _ => .error (.valueError "artifact row must decode to object")
  | none => .error (.valueError "JSONDecodeError")

/-- A kind of artifacts: how it is written and how it is read. -/
structure ArtifactCodec (K A : Type) where
  toDict : A → PyObj K
  fromDict : PyObj K → Except SupportErr A

/-- The codec of `rule_trace_artifact_bytes` and `rule_trace_artifact_from_dict`. -/
def ruleTraceCodec (host : Host K) : ArtifactCodec K (RuleTraceArtifact K) where
  toDict := ruleTraceArtifactToDict host.keyStr
  fromDict := ruleTraceArtifactFromDict

/-- The codec of `support_artifact_bytes` and `support_artifact_from_dict`. -/
def supportCodec (host : Host K) : ArtifactCodec K (ProofReceipt K) where
  toDict := supportArtifactToDict host.keyStr
  fromDict := supportArtifactFromDict

/-- The artifact is written, and its text is read as the artifact. -/
def ArtifactCodec.Survives {A : Type} (codec : ArtifactCodec K A) (host : Host K) (a : A) : Prop :=
  ∃ text row, dumpsRow host (codec.toDict a) = .ok text ∧ loadsRow host text = .ok row ∧
    codec.fromDict row = .ok a

end FactGraph.Sidecar
