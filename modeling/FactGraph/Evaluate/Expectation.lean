import FactGraph.Evaluate.Captured

/-!
# Expectations on the rows of a run

`application/protocol/evaluation_expectation.py` and `application/evaluation_expectation_runtime.py`.
An expectation names values of selected aliases; compiling gives each its type, its canonical cell and
a digest. It is evaluated on a live result, whose displayed terms are made canonical again, or on a
captured bundle, whose rows have tagged values.

The completeness of a result and the status of an outcome are texts in the source, checked to be one
of their values.
-/

namespace FactGraph.Evaluate

open Protocol Codec Store Db Check Entity

/-! ## Errors -/

/-- What evaluating an expectation raises: `EvaluationExpectationError` with its code, a
`ProtocolShapeError`, or what the codec raises. -/
inductive RunFault where
  | expectation (message code : String)
  | shape (e : ShapeError)
  | store (e : StoreErr)
  deriving DecidableEq, Repr

def expectationError {α : Type} (message code : String) : Except RunFault α :=
  .error (.expectation message code)

def ofShape {α : Type} : Except ShapeError α → Except RunFault α
  | .ok a => .ok a
  | .error e => .error (.shape e)

def ofStore {α : Type} : Except StoreErr α → Except RunFault α
  | .ok a => .ok a
  | .error e => .error (.store e)

/-- `except (TypeError, ValueError)`. An `OverflowError` is neither. -/
def isValueError : StoreErr → Bool
  | .valueError _ | .typeError _ => true
  | _ => false

/-- `except (TypeError, ValueError) as exc: raise EvaluationExpectationError(...) from exc`. -/
def orExpectation {α : Type} (message : String → String) (code : String) :
    Except StoreErr α → Except RunFault α
  | .ok a => .ok a
  | .error e =>
      if isValueError e then expectationError (message (errorText e)) code else .error (.store e)

/-! ## Canonical values -/

/-- The bytes of a base64url text, where it is the value of a `bytes` term. -/
def decodedBytes (valueType : String) (value : Datum) : Except StoreErr Datum :=
  match value with
  | .leaf (.str s) =>
      if valueType = "bytes" then
        match urlsafeB64decode? s with
        | some raw => .ok (.leaf (.bytes raw))
        | none => .error (.valueError "Incorrect padding")
      else .ok value
  | _ => .ok value

section

variable (host : Host Val)

/-- `_canonical_value`: the cell of a value and the digest of its canonical bytes. -/
def canonicalValue (valueType : String) (value : Datum) :
    Except StoreErr (Rules.Value × String) := do
  let raw ← decodedBytes valueType value
  let bytes ← canonicalBytesTupV1 [(valueType, raw)]
  let cell ← valAtomForClaimArg valueType raw
  .ok (cell, hexdigest (host.sha256 bytes))

/-- `EvaluationRunValueV0.digest`. -/
def RunValue.digest (v : RunValue) : Except RunFault String := do
  let raw ← ofShape (storageToRaw v.tag (View.datumOf v.value))
  let bytes ← ofStore (canonicalBytesTupV1 [(v.tag, raw)])
  .ok (hexdigest (host.sha256 bytes))

end

/-! ## Expectations -/

/-- `ContainsRowExpectationV0`, its values in the order of their aliases. -/
structure ContainsRowExpectation where
  expectationId : String
  selectedValues : List (String × FieldValue)
  id_ne : expectationId ≠ ""
  values_ne : selectedValues ≠ []
  alias_ne : ∀ v ∈ selectedValues, v.1 ≠ ""
  aliases_sorted : (selectedValues.map Prod.fst).Pairwise (· < ·)

/-- `ResolvedExpectationValueV0`. -/
structure ResolvedExpectationValue where
  aliasName : String
  valueType : String
  normalized : Rules.Value
  valueDigest : String
  deriving DecidableEq, Repr

/-- `_require_sha256_hex` of `evaluation_expectation.py`. -/
def expectSha256Hex (value fieldName : String) : Except ShapeError Unit :=
  require (isLowerHex64 value) ⟨s!"{fieldName} must be 64 lowercase sha256 hex characters"⟩

/-- `_require_prefixed_token` of `evaluation_expectation.py`. -/
def expectPrefixedToken (value start fieldName : String) : Except ShapeError Unit := do
  require (startsWith start value) ⟨s!"{fieldName} must start with '{start}'"⟩
  expectSha256Hex (String.ofList (value.toList.drop start.toList.length)) fieldName

/-- `_require_sha256_token` of `evaluation_expectation.py`. -/
def expectSha256Token (value fieldName : String) : Except ShapeError Unit := do
  require (startsWith "sha256:" value) ⟨s!"{fieldName} must be sha256 token"⟩
  expectSha256Hex (String.ofList (value.toList.drop 7)) fieldName

/-- The constructor of `ResolvedExpectationValueV0`. -/
def resolvedExpectationValue (aliasName valueType : String) (normalized : Rules.Value)
    (valueDigest : String) : Except ShapeError ResolvedExpectationValue := do
  requireNonEmptyStr aliasName "ResolvedExpectationValueV0.alias"
  requireNonEmptyStr valueType "ResolvedExpectationValueV0.value_type"
  expectSha256Hex valueDigest "ResolvedExpectationValueV0.value_digest"
  .ok ⟨aliasName, valueType, normalized, valueDigest⟩

/-- `CompiledContainsRowExpectationV0`. -/
structure CompiledExpectation where
  expectationId : String
  queryDigest : String
  values : List ResolvedExpectationValue
  id_ne : expectationId ≠ ""
  values_ne : values ≠ []
  /-- `CompiledContainsRowExpectationV0 values must have sorted unique aliases`. -/
  aliases_sorted : (values.map (·.aliasName)).Pairwise (· < ·)

/-- The constructor of `CompiledContainsRowExpectationV0`. -/
def compiledExpectation (expectationId queryDigest : String)
    (values : List ResolvedExpectationValue) : Except ShapeError CompiledExpectation :=
  if hid : expectationId ≠ "" then do
    expectSha256Hex queryDigest "CompiledContainsRowExpectationV0.query_digest"
    if hne : values ≠ [] then
      if hsorted : (values.map (·.aliasName)).Pairwise (· < ·) then
        .ok ⟨expectationId, queryDigest, values, hid, hne, hsorted⟩
      else .error ⟨"CompiledContainsRowExpectationV0 values must have sorted unique aliases"⟩
    else .error ⟨"CompiledContainsRowExpectationV0.values must be non-empty " ++
      "tuple[ResolvedExpectationValueV0, ...]"⟩
  else .error ⟨"CompiledContainsRowExpectationV0.expectation_id must be non-empty string"⟩

/-- `_token` of `evaluation_expectation.py`. -/
def expectationToken (host : Host Val) (label : String) (payload : Json) : String :=
  sha256Token host.sha256 (utf8 (jsonDumps jsonEscaping host.floatRepr
    (sortKeys (.obj [("format", .leaf (.str label)), ("payload", payload)]))))

/-- `_expectation_digest`. -/
def CompiledExpectation.digest (host : Host Val) (e : CompiledExpectation) : String :=
  expectationToken host "compiled_contains_row_expectation_v0" (.obj
    [("expectation_id", .leaf (.str e.expectationId)),
      ("query_digest", .leaf (.str e.queryDigest)),
      ("values", .arr (e.values.map fun v => .arr
        [.leaf (.str v.aliasName), .leaf (.str v.valueType), .leaf (.str v.valueDigest)]))])

/-! ## Compiling -/

/-- An error of the schema index or of a validation, as the `ValueError` it is. -/
def ofFault {α : Type} : Except Fault α → Except StoreErr α
  | .ok a => .ok a
  | .error (.schemaResolution dto) | .error (.entityWrite dto) => .error (.valueError dto.message)
  | .error (.other e) => .error e

/-- An error of the address space, as the `ValueError` it is. -/
def ofAddress {α : Type} : Except Policy.AddressError α → Except StoreErr α
  | .ok a => .ok a
  | .error e => .error (.valueError e.message)

/-- The selections of a compiled query, each with what it selects. -/
def selectionsOf (q : Policy.EvaluationQuery) (query : Policy.CompiledQuery) :
    List (Policy.QuerySelection × Policy.ResolvedSelection) :=
  q.selections.zip query.selections

section

variable (host : Host Val) (policyHost : Policy.Host) (entityHost : Entity.Host)
  (space : Policy.SemanticAddressSpace) (index : SchemaIndex)

/-- The cell of a scalar of a field. -/
def scalarCell (domain : String) (info : PredicateInfo) (d : Datum) :
    Except StoreErr Rules.Value := do
  let normalized ← valAtomForClaimArg domain (Policy.lowerUuid domain d)
  require (!Policy.isDollarText normalized)
    (.valueError "native lowering cannot preserve a '$'-prefixed string constant")
  ofFault (validateFieldValue entityHost (.scalar (View.datumOf normalized)) info)
  .ok normalized

/-- The type and the cell of a value of an entity. -/
def entityCell (entityType : String) (raw : FieldValue) : Except StoreErr (String × Rules.Value) :=
  match raw with
  | .scalar _ => .error (.valueError s!"expected EntityRef[{entityType}]")
  | .ref ref => do
      require (ref.entityType = entityType) (.valueError s!"expected EntityRef[{entityType}]")
      let identity ← ofFault (materializeIdentity entityHost index entityType ref.identity)
      let encoded ← ofFault (encodeEntityRef entityHost index ⟨entityType, identity, none⟩)
      .ok ("entity_ref", .str encoded)

/-- The type and the cell of a value of a field. -/
def fieldCell (entityType fieldName : String) (raw : FieldValue) :
    Except StoreErr (String × Rules.Value) :=
  match raw with
  | .ref _ => .error (.valueError "field endpoint expects scalar value")
  | .scalar d => do
      let info ← ofFault (fieldPredicate index entityType fieldName)
      let cell ← scalarCell entityHost (info.valueTypeDomain.getD "None") info d
      .ok (info.valueTypeDomain.getD "None", cell)

/-- The type and the cell of a value of a field that a query navigates to. -/
def navigationCell (s : Policy.ResolvedSelection) (entityType fieldName : String)
    (raw : FieldValue) : Except StoreErr (String × Rules.Value) :=
  match raw with
  | .ref _ => .error (.valueError "field navigation expects scalar value")
  | .scalar d => do
      let info ← ofFault (fieldPredicate index entityType fieldName)
      require (decide (some info.predId = s.fieldPredicateId) && !info.isIdentityField &&
          decide (info.cardinality = "single") &&
          decide (info.valueTypeDomain.getD "None" = s.valueType))
        (.valueError "compiled Query navigation no longer matches its schema field")
      let cell ← scalarCell entityHost s.valueType info d
      .ok (s.valueType, cell)

/-- The type and the cell that `_normalize_expected_value` gives to a value. -/
def expectedCell (s : Policy.QuerySelection × Policy.ResolvedSelection) (raw : FieldValue) :
    Except StoreErr (String × Rules.Value) :=
  match s.1.source with
  | .navigation _ entityType fieldName =>
      navigationCell entityHost index s.2 entityType fieldName raw
  | .direct a => do
      let resolved ← ofAddress (space.resolve policyHost a)
      match resolved.endpoint with
      | .entityIdentity entityType => entityCell entityHost index entityType raw
      | .field entityType fieldName => fieldCell entityHost index entityType fieldName raw
      | .functionValue .. => .error (.valueError "unsupported semantic endpoint")

/-- `_normalize_expected_value`. -/
def normalizeExpectedValue (s : Policy.QuerySelection × Policy.ResolvedSelection)
    (raw : FieldValue) : Except RunFault (String × Rules.Value × String) :=
  orExpectation (fun text => "expectation value is incompatible with selected alias " ++
      entityHost.reprText s.2.aliasName ++ ": " ++ text)
    "EXPECTATION_VALUE_TYPE_MISMATCH" (do
      let typed ← expectedCell policyHost entityHost space index s raw
      let canonical ← canonicalValue host typed.1 (View.datumOf typed.2)
      .ok (typed.1, canonical))

/-- One value of an expectation. -/
def compileSelectedValue (selections : List (Policy.QuerySelection × Policy.ResolvedSelection))
    (v : String × FieldValue) : Except RunFault ResolvedExpectationValue :=
  match selections.find? fun s => s.2.aliasName = v.1 with
  | none => expectationError
      s!"expectation alias {entityHost.reprText v.1} is not selected by this Query"
      "EXPECTATION_ALIAS_NOT_SELECTED"
  | some s => do
      let found ← normalizeExpectedValue host policyHost entityHost space index s v.2
      ofShape (resolvedExpectationValue v.1 found.1 found.2.1 found.2.2)

/-- One expectation. -/
def compileExpectation (selections : List (Policy.QuerySelection × Policy.ResolvedSelection))
    (queryDigest : String) (e : ContainsRowExpectation) : Except RunFault CompiledExpectation := do
  let values ← mapOk (compileSelectedValue host policyHost entityHost space index selections)
    e.selectedValues
  ofShape (compiledExpectation e.expectationId queryDigest
    (Policy.sortBy (·.aliasName) values))

/-- `compile_contains_row_expectations_v0`. -/
def compileContainsRowExpectations (q : Policy.EvaluationQuery) (query : Policy.CompiledQuery)
    (queryDigest : String) (expectations : List ContainsRowExpectation) :
    Except RunFault (List CompiledExpectation) := do
  require (decide (expectations.map (·.expectationId)).Nodup)
    (.expectation "expectation ids must be unique" "DUPLICATE_EXPECTATION_ID")
  mapOk (compileExpectation host policyHost entityHost space index (selectionsOf q query) queryDigest)
    expectations

end

/-! ## Outcomes -/

/-- `ExpectationCompletenessBasisV0`. -/
inductive CompletenessBasis where
  | completeNativeEnumeration
  | unknown
  | unsupported
  deriving DecidableEq, Repr

/-- `ExpectationStatusV0`. -/
inductive ExpectationStatus where
  | satisfied
  | notSatisfied
  | underdetermined
  | unsupported
  deriving DecidableEq, Repr

/-- `ExpectationResultV0`. -/
structure ExpectationResult where
  expectationId : String
  expectationDigest : String
  queryDigest : String
  targetedQueryWrapperDigest : String
  resultId : String
  resultDigest : String
  runAnchorDigest : Option String
  status : ExpectationStatus
  completenessBasis : CompletenessBasis
  matchedRowIds : List String
  diagnosticCode : String
  deriving DecidableEq, Repr

/-- What `ExpectationResultV0` requires of a status. -/
def ExpectationResult.checkStatus (r : ExpectationResult) : Except ShapeError Unit := do
  if r.status = .satisfied then
    require (!r.matchedRowIds.isEmpty &&
        decide (r.diagnosticCode = "EXPECTATION_CONTAINS_ROW_SATISFIED"))
      ⟨"satisfied contains-row result requires matching rows and its diagnostic"⟩
  else
    require r.matchedRowIds.isEmpty
      ⟨"non-satisfied expectation result must not carry matching rows"⟩
  match r.status with
  | .notSatisfied =>
      require (decide (r.completenessBasis = .completeNativeEnumeration) &&
          decide (r.diagnosticCode = "EXPECTATION_CONTAINS_ROW_NOT_SATISFIED"))
        ⟨"not_satisfied requires complete native enumeration"⟩
  | .underdetermined =>
      require (decide (r.completenessBasis = .unknown) &&
          decide (r.diagnosticCode = "EXPECTATION_COMPLETENESS_UNKNOWN"))
        ⟨"underdetermined requires unknown completeness"⟩
  | .unsupported =>
      require (decide (r.completenessBasis = .unsupported) &&
          decide (r.diagnosticCode = "EXPECTATION_UNSUPPORTED"))
        ⟨"unsupported result requires unsupported basis"⟩
  | .satisfied =>
      require (decide (r.completenessBasis ≠ .unsupported))
        ⟨"satisfied result cannot use unsupported completeness basis"⟩

/-- The checks of `ExpectationResultV0`. -/
def ExpectationResult.check (r : ExpectationResult) : Except ShapeError ExpectationResult := do
  requireNonEmptyStr r.expectationId "ExpectationResultV0.expectation_id"
  expectSha256Token r.expectationDigest "ExpectationResultV0.expectation_digest"
  expectSha256Token r.targetedQueryWrapperDigest
    "ExpectationResultV0.targeted_query_wrapper_digest"
  expectSha256Token r.resultDigest "ExpectationResultV0.result_digest"
  expectSha256Hex r.queryDigest "ExpectationResultV0.query_digest"
  expectPrefixedToken r.resultId "evalr_v1:" "ExpectationResultV0.result_id"
  requireOptional expectSha256Token r.runAnchorDigest "ExpectationResultV0.run_anchor_digest"
  requireNonEmptyStr r.diagnosticCode "ExpectationResultV0.diagnostic_code"
  require (r.matchedRowIds.all fun id => id ≠ "")
    ⟨"ExpectationResultV0.matched_row_ids must be tuple[str, ...]"⟩
  require (decide (r.matchedRowIds.insertionSort (· ≤ ·) = r.matchedRowIds) &&
      decide r.matchedRowIds.Nodup)
    ⟨"ExpectationResultV0.matched_row_ids must be sorted and unique"⟩
  r.checkStatus
  .ok r

/-- The status of an expectation that some rows match, and its diagnostic. -/
def statusOf (matching : List String) (basis : CompletenessBasis) : ExpectationStatus × String :=
  if !matching.isEmpty then (.satisfied, "EXPECTATION_CONTAINS_ROW_SATISFIED")
  else
    match basis with
    | .completeNativeEnumeration => (.notSatisfied, "EXPECTATION_CONTAINS_ROW_NOT_SATISFIED")
    | .unknown => (.underdetermined, "EXPECTATION_COMPLETENESS_UNKNOWN")
    | .unsupported => (.unsupported, "EXPECTATION_UNSUPPORTED")

/-! ## Live results -/

section

variable (host : Host Val)

/-- `_public_term_value` of a mapping. -/
def publicTermValue (term : List (String × Val)) : Val :=
  (Dict.get? term "value").getD (.mapping term)

/-- The canonical value of a row at the alias of an expected value. -/
def liveValue (row : EvaluateRow) (expected : ResolvedExpectationValue) :
    Except RunFault (Rules.Value × String) :=
  match Dict.get? row.bindings expected.aliasName with
  | some (.mapping term) =>
      orExpectation (fun _ => "result row value contradicts selected domain")
        "EXPECTATION_RESULT_SHAPE" (canonicalValue host expected.valueType (publicTermValue term).datum)
  | _ => expectationError "result row lacks selected expectation alias" "EXPECTATION_RESULT_SHAPE"

/-- `_row_matches`. -/
def rowMatches (row : EvaluateRow) : List ResolvedExpectationValue → Except RunFault Bool
  | [] => .ok true
  | expected :: values => do
      let actual ← liveValue host row expected
      if actual.1.eqv expected.normalized && decide (actual.2 = expected.valueDigest) then
        rowMatches row values
      else .ok false

/-- `_query_digest_for_result`. -/
def queryDigestForResult (result : EvaluateResult) : Except RunFault String :=
  if startsWith "sha256:" result.exprDigest && result.exprDigest.toList.length == 71 then
    .ok (String.ofList (result.exprDigest.toList.drop 7))
  else expectationError "result does not carry an EvaluationQuery digest"
    "EXPECTATION_RESULT_QUERY_REQUIRED"

/-- The check of `targeted_query_wrapper_digest`. -/
def requireWrapper (wrapperDigest message : String) : Except RunFault Unit :=
  require (startsWith "sha256:" wrapperDigest) (.expectation message "EXPECTATION_WRAPPER_REQUIRED")

/-- The outcome of one expectation. -/
def outcomeOf (result : EvaluateResult) (queryDigest wrapperDigest : String)
    (basis : CompletenessBasis) (e : CompiledExpectation) : Except RunFault ExpectationResult := do
  require (decide (e.queryDigest = queryDigest))
    (.expectation "compiled expectation does not match result Query" "EXPECTATION_QUERY_MISMATCH")
  let found ← filterOk (fun row => rowMatches host row e.values) result.rows
  let matching := (found.map (·.rowId)).insertionSort (· ≤ ·)
  ofShape (ExpectationResult.check ⟨e.expectationId, e.digest host, queryDigest, wrapperDigest,
    result.resultId, result.resultDigest, result.runAnchor.map (·.anchorDigest),
    (statusOf matching basis).1, basis, matching, (statusOf matching basis).2⟩)

/-- `evaluate_contains_row_expectations_v0`. -/
def evaluateContainsRowExpectations (expectations : List CompiledExpectation)
    (result : EvaluateResult) (wrapperDigest : String) (basis : CompletenessBasis) :
    Except RunFault (List ExpectationResult) := do
  requireWrapper wrapperDigest "expectation requires targeted Query wrapper digest"
  let queryDigest ← queryDigestForResult result
  mapOk (outcomeOf host result queryDigest wrapperDigest basis) expectations

/-! ## Captured bundles -/

/-- `assert_compiled_contains_row_expectation_current`: what the type does not say. -/
def assertExpectationCurrent (e : CompiledExpectation) : Except RunFault Unit :=
  each (fun v => do
    let canonical ← orExpectation (fun _ => "compiled expectation failed its integrity check")
      "EXPECTATION_INTEGRITY_MISMATCH"
      (canonicalValue host v.valueType (View.datumOf v.normalized))
    require (canonical.1.eqv v.normalized && decide (canonical.2 = v.valueDigest))
      (.expectation "compiled expectation failed its integrity check"
        "EXPECTATION_INTEGRITY_MISMATCH")) e.values

/-- The comparison of a captured value with an expected one. -/
def capturedValueMatches (actual : Option RunValue) (expected : ResolvedExpectationValue) :
    Except RunFault Bool :=
  match actual with
  | none => .ok false
  | some v => do
      let digest ← v.digest host
      .ok (decide (v.tag = expected.valueType) && v.value.eqv expected.normalized &&
        decide (digest = expected.valueDigest))

/-- The loop of `_captured_row_matches`. -/
def capturedValuesMatch (rowValues : List (String × RunValue)) :
    List ResolvedExpectationValue → Except RunFault Bool
  | [] => .ok true
  | expected :: values => do
      let same ← capturedValueMatches host (Dict.get? rowValues expected.aliasName) expected
      if same then capturedValuesMatch rowValues values else .ok false

/-- `_captured_row_matches`. -/
def capturedRowMatches (rowValues : List (String × RunValue))
    (values : List ResolvedExpectationValue) : Except RunFault Bool := do
  require (decide (rowValues.map Prod.fst).Nodup)
    (.expectation "captured projection row has duplicate aliases" "EXPECTATION_RESULT_SHAPE")
  capturedValuesMatch host rowValues values

/-- The check of an expected value against the captured selections. -/
def checkSelectionType (anchor : RunAnchor) (v : ResolvedExpectationValue) : Except RunFault Unit :=
  match Dict.get? anchor.selections v.aliasName with
  | none => expectationError
      "compiled expectation alias is absent from captured Query selections"
      "EXPECTATION_ALIAS_NOT_SELECTED"
  | some selectedType => require (decide (selectedType = v.valueType))
      (.expectation "compiled expectation value type contradicts captured Query selection"
        "EXPECTATION_VALUE_TYPE_MISMATCH")

/-- The outcome of one expectation. -/
def capturedOutcomeOf (bundle : RunBundle) (wrapperDigest : String) (e : CompiledExpectation) :
    Except RunFault ExpectationResult := do
  assertExpectationCurrent host e
  require (decide (e.queryDigest = bundle.queryDigest))
    (.expectation "compiled expectation does not match captured Query" "EXPECTATION_QUERY_MISMATCH")
  each (checkSelectionType bundle.anchor) e.values
  let found ← filterOk (fun row => capturedRowMatches host row.values e.values) bundle.rows
  let matching := (found.map (·.rowId)).insertionSort (· ≤ ·)
  ofShape (ExpectationResult.check ⟨e.expectationId, e.digest host, bundle.queryDigest,
    wrapperDigest, bundle.anchor.resultId, bundle.anchor.resultDigest,
    some bundle.anchor.anchorDigest,
    (statusOf matching .completeNativeEnumeration).1, .completeNativeEnumeration, matching,
    (statusOf matching .completeNativeEnumeration).2⟩)

/-- `evaluate_captured_contains_row_expectations_v0`. -/
def evaluateCapturedContainsRowExpectations (expectations : List CompiledExpectation)
    (bundle : RunBundle) (wrapperDigest : String) : Except RunFault (List ExpectationResult) := do
  requireWrapper wrapperDigest "captured expectation requires targeted Query wrapper digest"
  require (decide (expectations.map (·.expectationId)).Nodup)
    (.expectation "captured expectation ids are duplicated" "DUPLICATE_EXPECTATION_ID")
  mapOk (capturedOutcomeOf host bundle wrapperDigest) expectations

end

end FactGraph.Evaluate
