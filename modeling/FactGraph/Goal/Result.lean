import FactGraph.Evaluate.Typed
import FactGraph.Scenario.Consistent

/-!
# The result of a goal

`application/protocol/goal_plan_v1.py`, and what makes a `GoalResultV1` of the rows an engine has
selected: `_goal_result_from_rows` of `application/goal_plan_v1_runtime.py` in a live run, and
`_goal_result_from_engine_output` of `application/evaluation_run_v1_runtime.py` in a sealed one.

The result mode says how much of the rows is kept: `exists` keeps one of them as a witness. The
expectations of a plan are evaluated on all rows, save that a live run looks for an expected row among
those that are kept.

Digests that no comparison reads (of expectations, outcomes and results) are left out, and with them
the anchors. An enumeration that ends is complete, which is the only completeness there is here.
-/

namespace FactGraph.Goal

open Protocol Store Db Check Evaluate

/-! ## Values and rows -/

/-- What is raised: `GoalPlanRuntimeError` and `EvaluationRunRuntimeErrorV1` with their codes, and
`ProtocolShapeError`. -/
inductive Fault where
  | runtime (message code : String)
  | protocolShape (message : String)
  deriving DecidableEq, Repr

def demand (c : Bool) (message : String) : Except Fault Unit := require c (.protocolShape message)

structure Host where
  sha256 : List UInt8 → List UInt8

def text (s : String) : Json := .leaf (.str s)

/-- `_token`. The two keys are in order, and there is no float in what is sealed here. -/
def Host.token (host : Host) (label : String) (payload : Json) : String :=
  "sha256:" ++ hexdigest (host.sha256 (utf8 (jsonDumps jsonEscaping bitsRepr
    (.obj [("format", text label), ("payload", payload)]))))

/-- `GoalValueV1`: it checks its storage as `ScenarioValueV1` does. -/
abbrev GoalValue := Scenario.ScenarioValue

/-- `GoalValueStorageV1`, as JSON. -/
def storage : Rules.Value → Json
  | .bool b => .leaf (.bool b)
  | .int i => .leaf (.int i)
  | .str s => text s
  | .none | .float _ | .bytes _ => .leaf .null

/-- `value_digest`. -/
def valueDigest (host : Host) (v : GoalValue) : String :=
  host.token "goal_value_v1" (.arr [text v.tag, storage v.value])

/-- `_goal_value_from_raw`. -/
def goalValueFromRaw (tag : String) (raw : Datum) : Except Fault GoalValue :=
  let invalid : Fault := .runtime "value cannot enter canonical GoalPlan storage" "GOAL_VALUE_INVALID"
  match valAtomForClaimArg tag raw with
  | .ok normalized =>
      if h : Scenario.IsCanonical tag normalized then .ok ⟨tag, normalized, h⟩ else .error invalid
  | .error _ => .error invalid

/-- The values of a `GoalResultRowV1` or of a `GoalRowExpectationV1`: under their aliases, in the
order of these. -/
structure GoalRow where
  values : List (String × GoalValue)
  values_ne : values ≠ []
  alias_ne : ∀ p ∈ values, p.1 ≠ ""
  nodup : (Dict.keys values).Nodup
  sorted : values.Pairwise fun p q => p.1 ≤ q.1
  deriving DecidableEq

/-- `__post_init__` of the class `owner`. -/
def GoalRow.make (owner : String) (values : List (String × GoalValue)) : Except Fault GoalRow :=
  let sorted := values.insertionSort fun p q => p.1 ≤ q.1
  if hne : sorted ≠ [] then
    if halias : ∀ p ∈ sorted, p.1 ≠ "" then
      if hnodup : (Dict.keys sorted).Nodup then
        .ok ⟨sorted, hne, halias, hnodup, List.pairwise_insertionSort _ _⟩
      else .error (.protocolShape s!"{owner} aliases must be unique")
    else .error (.protocolShape s!"{owner}.values.alias must be non-empty string")
  else .error (.protocolShape s!"{owner}.values must be non-empty tuple")

/-- `_row_value_shape`. -/
def rowValueShape (host : Host) (row : GoalRow) : List (String × String × String) :=
  row.values.map fun p => (p.1, p.2.tag, valueDigest host p.2)

/-- `semantic_row_digest`. -/
def semanticRowDigest (host : Host) (row : GoalRow) : String :=
  host.token "goal_semantic_result_row_v1"
    (.arr ((rowValueShape host row).map fun (a, tag, digest) => .arr [text a, text tag, text digest]))

/-- `_row_matches`. -/
def rowMatches (row expected : GoalRow) : Bool :=
  expected.values.all fun p => Dict.get? row.values p.1 = some p.2

/-! ## Plans -/

/-- `GoalResultModeV1`; `existence` is `exists`. -/
inductive ResultMode where
  | rows | existence | count | set
  deriving DecidableEq, Repr

/-- `GoalSelectionV1`. -/
structure GoalSelection where
  aliasName : String
  valueTag : String
  deriving DecidableEq, Repr

/-- `GoalExpectationV1`. -/
inductive GoalExpectation where
  | containsRow (expectationId : String) (row : GoalRow)
  | exactLocalAbsence (expectationId : String) (closureTarget : Scenario.ClosureTarget)
  | existence (expectationId : String) (expected : Bool)
  | countEq (expectationId : String) (expectedCount : Nat)
  | setEquals (expectationId : String) (rows : List GoalRow)

def GoalExpectation.expectationId : GoalExpectation → String
  | .containsRow i _ | .exactLocalAbsence i _ | .existence i _ | .countEq i _ | .setEquals i _ => i

def GoalExpectation.kind : GoalExpectation → String
  | .containsRow .. => "contains_row"
  | .exactLocalAbsence .. => "exact_local_absence"
  | .existence .. => "exists"
  | .countEq .. => "count_eq"
  | .setEquals .. => "set_equals"

/-- `_validate_expected_row`. -/
def validExpectedRow (selections : List GoalSelection) (exact : Bool) (row : GoalRow) : Bool :=
  (!exact || selections.all fun s => Dict.has row.values s.aliasName) &&
    row.values.all fun p => ⟨p.1, p.2.tag⟩ ∈ selections

/-- `_validate_expectation_against_plan`. -/
def GoalExpectation.validAgainst (selections : List GoalSelection) : GoalExpectation → Bool
  | .containsRow _ row => validExpectedRow selections false row
  | .setEquals _ rows => rows.all (validExpectedRow selections true)
  | .exactLocalAbsence .. | .existence .. | .countEq .. => true

/-- `GoalPlanV1`: what an execution reads of it. -/
structure GoalPlan where
  resultMode : ResultMode
  selections : List GoalSelection
  scenarioRequestDigest : Option String
  expectations : List GoalExpectation
  selections_ne : selections ≠ []
  aliases_nodup : (selections.map (·.aliasName)).Nodup
  ids_nodup : (expectations.map (·.expectationId)).Nodup
  expectations_valid : ∀ e ∈ expectations, e.validAgainst selections = true

/-- What `build_goal_plan_invocation_v1` demands of a plan for a live run. -/
def GoalPlan.admitted (plan : GoalPlan) : Bool :=
  plan.resultMode ≠ .existence || plan.expectations.all (·.kind ≠ "contains_row")

/-! ## Rows of an engine -/

/-- `PortableEngineEvaluationV1`: rows of canonical terms, one for each byte string. -/
structure EngineEvaluation where
  rows : List (List Term)
  encoded : ∀ row ∈ rows, ∃ raw, canonicalBytesTupV1 row = .ok raw
  apart : rows.Pairwise fun row row' => canonicalBytesTupV1 row ≠ canonicalBytesTupV1 row'

/-- `_goal_row`, `_goal_row_from_terms`. -/
def goalRow (plan : GoalPlan) (terms : List Term) : Except Fault GoalRow := do
  require (terms.length = plan.selections.length)
    (.runtime "engine projection width does not match GoalPlan selections"
      "GOAL_PROJECTION_WIDTH_MISMATCH")
  let values ← mapOk (fun (s, t) => do
    require (t.1 = s.valueTag)
      (.runtime "engine projection type does not match GoalPlan selection"
        "GOAL_PROJECTION_TYPE_MISMATCH")
    let v ← goalValueFromRaw t.1 t.2
    .ok (s.aliasName, v)) (plan.selections.zip terms)
  GoalRow.make "GoalResultRowV1" values

/-! ## Expectations -/

/-- `GoalExpectationStatusV1`, as far as an evaluation gives it. -/
inductive ExpectationStatus where
  | satisfied | notSatisfied | underdetermined
  deriving DecidableEq, Repr

/-- `GoalExpectationOutcomeV1`. -/
structure ExpectationOutcome where
  expectationId : String
  kind : String
  status : ExpectationStatus
  matched : List String
  diagnosticCode : String
  deriving DecidableEq

/-- `GoalExpectationOutcomeV1.__post_init__`, on matches in order. -/
def expectationOutcome (e : GoalExpectation) (status : ExpectationStatus) (matched : List String)
    (diagnosticCode : String) : Except Fault ExpectationOutcome := do
  demand (decide matched.Nodup) "GoalExpectationOutcomeV1 does not permit bag semantics"
  demand (status ≠ .satisfied || e.kind ≠ "contains_row" || !matched.isEmpty)
    "satisfied contains-row expectation requires a witness row"
  demand (status = .satisfied && e.kind ≠ "exact_local_absence" || matched.isEmpty)
    "only satisfied expectation may carry matched rows"
  .ok ⟨e.expectationId, e.kind, status, matched, diagnosticCode⟩

/-- What the world of a side says of a closure target: a status and its code, or an error where the
closure contradicts the world. -/
abbrev Absence := Scenario.ClosureTarget → Except Fault (ExpectationStatus × String)

/-- The status of a test that passes or fails, and its code. -/
def verdict (e : GoalExpectation) (passes : Bool) (code : String) :
    Except Fault ExpectationOutcome :=
  if passes then expectationOutcome e .satisfied [] s!"{code}_SATISFIED"
  else expectationOutcome e .notSatisfied [] s!"{code}_NOT_SATISFIED"

/-- A turn of `_evaluate_expectations` and of `_expectation_outcomes`: the first looks for an expected
row among those that are kept, the second among all. -/
def evaluateExpectation (host : Host) (absence : Absence) (looked allRows : List GoalRow)
    (e : GoalExpectation) : Except Fault ExpectationOutcome :=
  match e with
  | .containsRow _ expected =>
      let matched := ((looked.filter (rowMatches · expected)).map
        (semanticRowDigest host)).insertionSort (· ≤ ·)
      if matched.isEmpty then expectationOutcome e .notSatisfied [] "GOAL_CONTAINS_ROW_NOT_SATISFIED"
      else expectationOutcome e .satisfied matched "GOAL_CONTAINS_ROW_SATISFIED"
  | .existence _ expected => verdict e (!allRows.isEmpty == expected) "GOAL_EXISTS"
  | .countEq _ expectedCount => verdict e (allRows.length = expectedCount) "GOAL_COUNT"
  | .setEquals _ rows =>
      let actual := allRows.map (rowValueShape host)
      let expected := rows.map (rowValueShape host)
      verdict e (actual.all (· ∈ expected) && expected.all (· ∈ actual)) "GOAL_SET_EQUALS"
  | .exactLocalAbsence _ target => do
      let (status, code) ← absence target
      expectationOutcome e status [] code

/-! ## Results -/

/-- `GoalResultV1`. -/
structure GoalResult where
  resultMode : ResultMode
  rows : List GoalRow
  existsValue : Option Bool
  countValue : Option Nat
  outcomes : List ExpectationOutcome

/-- `_validate_mode_values`. -/
def validateModeValues (mode : ResultMode) (digests : List String) (existsValue : Option Bool)
    (countValue : Option Nat) : Except Fault Unit :=
  match mode with
  | .rows | .set => demand (existsValue.isNone && countValue.isNone)
      "rows/set result must not carry exists/count scalar result"
  | .existence => do
      demand countValue.isNone "exists result must not carry count"
      match existsValue with
      | none => .error (.protocolShape "GoalResultV1.exists_value is outside this protocol")
      | some true => demand (digests.length = 1) "true exists result requires exactly one witness row"
      | some false =>
          demand digests.isEmpty "false exists result requires zero rows and complete enumeration"
  | .count => do
      demand existsValue.isNone "count result must not carry exists value"
      demand countValue.isSome "complete count result requires count_value"
      demand (countValue = some digests.length)
        "count value requires complete unique-row enumeration and must match it"

/-- `GoalResultV1.__post_init__`. -/
def goalResult (host : Host) (mode : ResultMode) (rows : List GoalRow) (existsValue : Option Bool)
    (countValue : Option Nat) (outcomes : List ExpectationOutcome) : Except Fault GoalResult := do
  let rows := rows.insertionSort fun r r' => semanticRowDigest host r ≤ semanticRowDigest host r'
  let digests := rows.map (semanticRowDigest host)
  demand (decide digests.Nodup)
    "GoalResultV1 does not permit duplicate semantic rows or bag semantics"
  validateModeValues mode digests existsValue countValue
  demand (decide (outcomes.map (·.expectationId)).Nodup)
    "GoalResultV1 expectation outcome ids must be unique"
  demand (outcomes.all fun o => o.matched.all (· ∈ digests))
    "GoalResultV1 expectation outcome references a missing row"
  .ok ⟨mode, rows, existsValue, countValue, outcomes⟩

/-- The rows a result keeps. -/
def keptRows (mode : ResultMode) (allRows : List GoalRow) : List GoalRow :=
  match mode with
  | .existence => allRows.take 1
  | .rows | .count | .set => allRows

/-- What the two functions that make a result have in common; `looked` are the rows among which an
expected row is looked for. -/
def resultOf (host : Host) (plan : GoalPlan) (absence : Absence) (looked allRows : List GoalRow) :
    Except Fault GoalResult := do
  let outcomes ← mapOk (evaluateExpectation host absence looked allRows) plan.expectations
  goalResult host plan.resultMode (keptRows plan.resultMode allRows)
    (if plan.resultMode = .existence then some !allRows.isEmpty else none)
    (if plan.resultMode = .count then some allRows.length else none) outcomes

/-- `_goal_result_from_rows`. -/
def goalResultFromRows (host : Host) (plan : GoalPlan) (absence : Absence)
    (rows : EngineEvaluation) : Except Fault GoalResult := do
  let logicalRows ← mapOk (goalRow plan) rows.rows
  resultOf host plan absence (keptRows plan.resultMode logicalRows) logicalRows

/-- `_goal_result_from_engine_output`. -/
def goalResultFromEngineOutput (host : Host) (plan : GoalPlan) (absence : Absence)
    (output : EngineEvaluation) : Except Fault GoalResult := do
  let allRows ← mapOk (goalRow plan) output.rows
  require (decide (allRows.map (semanticRowDigest host)).Nodup)
    (.runtime "engine returned duplicate semantic result rows"
      "EVALUATION_RUN_V1_REPLAY_RESULT_SHAPE_INVALID")
  resultOf host plan absence allRows allRows

end FactGraph.Goal
