import FactGraph.Codec.Scalars
import FactGraph.Evaluate.Digests
import FactGraph.Policy.Query

/-!
# Captured rows

`application/protocol/evaluation_run_bundle.py` and `_capture_rows` of
`application/evaluation_run_bundle_runtime.py`: the rows of a native run of a query, as a bundle keeps
them. A live row displays its values as terms, `{"kind": "entity_ref", "value": …}` or
`{"kind": "literal", "tag": …, "value": …}`; a captured row has tagged values in storage form, which
is the form of a cell, and bytes are base64url text in it.

Of a bundle this has the anchor's identity of the query and of the rows, the selections and the
rows. Proof receipts, the relations, the plan and the seals are left out. The size limit is on the
encoded bundle; every text of a value stands in the encoding, and `fits` is what the limit says of
these texts.
-/

namespace FactGraph.Evaluate

open Protocol Codec Check

/-! ## Values -/

/-- A displayed object, as `tup_v1` sees it. No tag takes an object with parts or a date. -/
def Val.datum : Val → Datum
  | .none => .leaf .none
  | .bool b => .leaf (.bool b)
  | .int i => .leaf (.int i)
  | .float x => .leaf (.float x)
  | .str s => .leaf (.str s)
  | .date _ | .datetime _ | .tuple _ | .list _ | .mapping _ | .other _ => .arr []

/-- `_storage_to_raw`. -/
def storageToRaw (tag : String) (value : Datum) : Except ShapeError Datum :=
  if tag = "bytes" then
    match value with
    | .leaf (.str s) =>
        match urlsafeB64decode? s with
        | none => .error ⟨"EvaluationRun bytes storage value is malformed"⟩
        | some raw =>
            if urlsafeBase64 raw = s then .ok (.leaf (.bytes raw))
            else .error ⟨"EvaluationRun bytes storage value is non-canonical"⟩
    | _ => .error ⟨"EvaluationRun bytes storage value must be base64url string"⟩
  else .ok value

/-- `claim_args_from_rest_terms([(tag, _storage_to_raw(tag, value))])[0][1]`, unless it raises. -/
def storedCell? (tag : String) (value : Datum) : Option Rules.Value :=
  match storageToRaw tag value with
  | .ok raw => (valAtomForClaimArg tag raw).toOption
  | .error _ => none

/-- `EvaluationRunValueV0`. -/
structure RunValue where
  tag : String
  value : Rules.Value
  /-- `EvaluationRun bundle value is not in canonical storage form`. -/
  canonical : storedCell? tag (View.datumOf value) = some value

/-- The constructor of `EvaluationRunValueV0`. -/
def runValue (tag : String) (value : Datum) : Except ShapeError RunValue :=
  if (tagCode? tag).isNone then .error ⟨"EvaluationRun bundle value tag is unsupported"⟩
  else
    match h : storedCell? tag value with
    | none => .error ⟨"EvaluationRun bundle value is not canonical tup_v1"⟩
    | some cell =>
        if hv : View.datumOf cell = value then .ok ⟨tag, cell, by rw [hv, h]⟩
        else .error ⟨"EvaluationRun bundle value is not in canonical storage form"⟩

/-- `_projection_value`. -/
def projectionValue (valueType : String) (displayed : Option Val) : Except ShapeError RunValue :=
  match displayed with
  | some (.mapping fs) =>
      if valueType = "entity_ref" then
        match fs.length, Dict.get? fs "kind", Dict.get? fs "value" with
        | 2, some (.str "entity_ref"), some value => runValue valueType value.datum
        | _, _, _ => .error ⟨"captured entity_ref projection is malformed"⟩
      else
        match fs.length, Dict.get? fs "kind", Dict.get? fs "tag", Dict.get? fs "value" with
        | 3, some (.str "literal"), some (.str tag), some value =>
            if tag = valueType then runValue valueType value.datum
            else .error ⟨"captured literal projection is malformed"⟩
        | _, _, _, _ => .error ⟨"captured literal projection is malformed"⟩
  | _ => .error ⟨"captured projection value is not typed"⟩

/-! ## Results -/

/-- `EvaluationRunAnchorV0`: the query, its selections with their types, and the rows. -/
structure RunAnchor where
  queryDigest : String
  selections : List (String × String)
  resultId : String
  resultDigest : String
  rowIds : List String
  anchorDigest : String
  queryDigest_ok : requireSha256Hex queryDigest "query_digest" = .ok ()
  anchorDigest_ok : requireSha256Token anchorDigest "anchor_digest" = .ok ()
  /-- `EvaluationRun selections are invalid`. -/
  aliases_nodup : (selections.map Prod.fst).Nodup
  /-- `EvaluationRun row ids are not unique`. -/
  rowIds_nodup : rowIds.Nodup

/-- `EvaluateResult`, with what the expectations read of it. -/
structure EvaluateResult where
  resultId : String
  rows : List EvaluateRow
  /-- `fingerprint.expr_digest`. -/
  exprDigest : String
  /-- `fingerprint.result_digest`. -/
  resultDigest : String
  runAnchor : Option RunAnchor
  resultId_ok : requireTokenPrefix resultId "evalr_v1:" "EvaluateResult.result_id" = .ok ()
  exprDigest_ok : requireSha256Token exprDigest "ResultFingerprint.expr_digest" = .ok ()
  resultDigest_ok : requireSha256Token resultDigest "ResultFingerprint.result_digest" = .ok ()
  /-- `EvaluateRow.row_id must be non-empty string`. -/
  rowId_ne : ∀ row ∈ rows, row.rowId ≠ ""
  /-- `EvaluateResult.rows contains duplicate row_id`. -/
  rowIds_nodup : (rows.map (·.rowId)).Nodup
  /-- `_validate_run_anchor`. -/
  anchored : ∀ a ∈ runAnchor, a.resultId = resultId ∧ a.resultDigest = resultDigest ∧
    a.rowIds = rows.map (·.rowId) ∧ exprDigest = "sha256:" ++ a.queryDigest

/-- The selections of a compiled query, with their types. -/
def selectionTypes (query : Policy.CompiledQuery) : List (String × String) :=
  query.selections.map fun s => (s.aliasName, s.valueType)

/-- `build_evaluation_run_anchor_v0` and the result with the anchor. `anchorDigest` is the seal of
the anchor. -/
def anchorResult (query : Policy.CompiledQuery) (queryDigest anchorDigest : String)
    (result : EvaluateResult) : Except ShapeError EvaluateResult :=
  if hq : requireSha256Hex queryDigest "query_digest" = .ok () then
    if ha : requireSha256Token anchorDigest "anchor_digest" = .ok () then
      if hs : ((selectionTypes query).map Prod.fst).Nodup then
        if he : result.exprDigest = "sha256:" ++ queryDigest then
          .ok { result with
            runAnchor := some ⟨queryDigest, selectionTypes query, result.resultId,
              result.resultDigest, result.rows.map (·.rowId), anchorDigest, hq, ha, hs,
              result.rowIds_nodup⟩
            anchored := by
              intro a h
              cases h
              exact ⟨rfl, rfl, rfl, he⟩ }
        else .error ⟨"EvaluateResult.run_anchor does not match this result"⟩
      else .error ⟨"EvaluationRun selections are invalid"⟩
    else .error ⟨"EvaluationRun anchor_digest does not match content"⟩
  else .error ⟨"EvaluationRun query_digest must be sha256 hex"⟩

/-! ## Bundles -/

/-- `MAX_EVALUATION_RUN_BUNDLE_BYTES`. -/
def maxRunBundleBytes : Nat := 1024 * 1024

/-- `MAX_EVALUATION_RUN_BUNDLE_ROWS`. -/
def maxRunBundleRows : Nat := 1000

/-- `MAX_EVALUATION_RUN_BUNDLE_VALUES`. -/
def maxRunBundleValues : Nat := 64

/-- `EvaluationRunProjectionRowV0`: its identity and its values. -/
structure ProjectionRow where
  rowId : String
  values : List (String × RunValue)
  /-- `EvaluationRun projection values are malformed`. -/
  wellFormed : values ≠ [] ∧ values.length ≤ maxRunBundleValues ∧ (∀ v ∈ values, v.1 ≠ "") ∧
    (values.map Prod.fst).Nodup

/-- The constructor of `EvaluationRunProjectionRowV0`. -/
def projectionRow (rowId : String) (values : List (String × RunValue)) :
    Except ShapeError ProjectionRow :=
  if h : values ≠ [] ∧ values.length ≤ maxRunBundleValues ∧ (∀ v ∈ values, v.1 ≠ "") ∧
      (values.map Prod.fst).Nodup then .ok ⟨rowId, values, h⟩
  else .error ⟨"EvaluationRun projection values are malformed"⟩

/-- One row of `_capture_rows`. -/
def captureRow (selections : List (String × String)) (row : EvaluateRow) :
    Except ShapeError ProjectionRow := do
  let values ← mapOk (fun s => do
    let value ← projectionValue s.2 (Dict.get? row.bindings s.1)
    .ok (s.1, value)) selections
  projectionRow row.rowId values

/-- `_capture_rows`. -/
def captureRows (selections : List (String × String)) (rows : List EvaluateRow) :
    Except ShapeError (List ProjectionRow) := do
  require (rows.length ≤ maxRunBundleRows) ⟨"EvaluationRun projection row limit exceeded"⟩
  require (selections.length ≤ maxRunBundleValues) ⟨"EvaluationRun projection value limit exceeded"⟩
  mapOk (captureRow selections) rows

/-- `EvaluationRunBundleV0`. -/
structure RunBundle where
  anchor : RunAnchor
  queryDigest : String
  rows : List ProjectionRow
  /-- `EvaluationRun bundle query does not match Run anchor`. -/
  query_eq : queryDigest = anchor.queryDigest
  /-- `EvaluationRun bundle rows do not match Run anchor`. -/
  rows_eq : rows.map (·.rowId) = anchor.rowIds
  /-- `EvaluationRun bundle row projection does not match selections`. -/
  aliases_eq : ∀ row ∈ rows, row.values.map Prod.fst = anchor.selections.map Prod.fst

/-- The constructor of `EvaluationRunBundleV0`. -/
def runBundle (anchor : RunAnchor) (queryDigest : String) (rows : List ProjectionRow) :
    Except ShapeError RunBundle :=
  if hq : queryDigest = anchor.queryDigest then
    if hr : rows.map (·.rowId) = anchor.rowIds then
      if ha : ∀ row ∈ rows, row.values.map Prod.fst = anchor.selections.map Prod.fst then
        .ok ⟨anchor, queryDigest, rows, hq, hr, ha⟩
      else .error ⟨"EvaluationRun bundle row projection does not match selections"⟩
    else .error ⟨"EvaluationRun bundle rows do not match Run anchor"⟩
  else .error ⟨"EvaluationRun bundle query does not match Run anchor"⟩

/-- The text of a stored value in the encoding of a bundle, without quotes and escapes. -/
def storedText : Rules.Value → String
  | .str s => s
  | .int i => toString i
  | .none | .bool _ | .float _ | .bytes _ => ""

/-- The texts of the values are within the limit of the encoding. -/
def RunBundle.fits (bundle : RunBundle) : Bool :=
  bundle.rows.all fun row => row.values.all fun v =>
    decide ((utf8 (storedText v.2.value)).length ≤ maxRunBundleBytes)

/-- `_build_evaluation_run_bundle_v0`. -/
def buildRunBundle (query : Policy.CompiledQuery) (queryDigest : String) (result : EvaluateResult) :
    Except ShapeError RunBundle :=
  match result.runAnchor with
  | none => .error ⟨"EvaluationRun bundle requires an anchored EvaluateResult"⟩
  | some anchor => do
      let rows ← captureRows (selectionTypes query) result.rows
      let bundle ← runBundle anchor queryDigest rows
      require bundle.fits ⟨"EvaluationRun bundle exceeds maximum encoded size"⟩
      .ok bundle

end FactGraph.Evaluate
