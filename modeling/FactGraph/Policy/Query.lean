import FactGraph.Policy.Compile

/-!
# Compiling an evaluation query

`application/protocol/evaluation_query.py` and `application/evaluation_query_runtime.py`. A query
selects ports of a compiled policy, or fields of the entities at them, and binds ports to values. In
every branch an address stands for the port of the lowered occurrence of its alias; a compiled query
has these sources, and `seal` attaches them to the body of the policy, or to the part of it that some
branches are.

What pins a query to the digest of its policy is left out: the policy is the one given.
-/

namespace FactGraph.Policy

open Check Protocol Entity

/-! ## Queries -/

/-- `EvaluationQueryBinding`. -/
structure QueryBinding where
  address : SemanticPortAddress
  value : FieldValue

/-- What a selection reads: `EvaluationQuerySelection | EvaluationQueryNavigationSelectionV0`. -/
inductive SelectionSource where
  | direct (address : SemanticPortAddress)
  | navigation (base : SemanticPortAddress) (entityType fieldName : String)
  deriving DecidableEq, Repr

structure QuerySelection where
  aliasName : String
  source : SelectionSource
  deriving DecidableEq, Repr

/-- `EvaluationQuery`. -/
structure EvaluationQuery where
  selections : List QuerySelection
  bindings : List QueryBinding
  selections_ne : selections ≠ []
  alias_ne : ∀ s ∈ selections, s.aliasName ≠ ""
  /-- `selection aliases must be unique`. -/
  aliases_nodup : (selections.map (·.aliasName)).Nodup
  /-- `selection addresses must be unique`, `navigation selections must be unique`. -/
  sources_nodup : (selections.map (·.source)).Nodup
  /-- `binding addresses must be unique`. -/
  bindings_nodup : (bindings.map (·.address)).Nodup

/-- `EvaluationQueryError`: its message, code, stage and path. -/
structure QueryError where
  message : String
  code : String
  stage : String
  path : List String := []

def queryError {α : Type} (message code stage : String) (path : List String) :
    Except QueryError α :=
  .error ⟨message, code, stage, path⟩

/-! ## Sources -/

/-- `EvaluationQueryPortSource`. -/
structure PortSource where
  branchId : String
  occurrenceAlias : String
  portName : String
  deriving DecidableEq, Repr

/-- `ResolvedEvaluationQueryBinding`, with the cell that is bound. -/
structure ResolvedBinding where
  valueType : String
  value : Rules.Value
  sources : List PortSource

/-- `ResolvedEvaluationQuerySelection`, or with a predicate
`ResolvedEvaluationQueryNavigationSelectionV0`. -/
structure ResolvedSelection where
  aliasName : String
  valueType : String
  fieldPredicateId : Option String
  sources : List PortSource

/-- `_branch_sources`. -/
def branchSources (policy : CompiledPolicy) (a : SemanticPortAddress) :
    Except QueryError (List PortSource) :=
  mapOk (fun b =>
    match (b.authoredAliases.zip b.loweredAliases).find? fun p => p.1 = a.occurrenceAlias with
    | some p => .ok ⟨b.branchId, p.2, a.portName⟩
    | none => queryError "query address is not present in every Policy branch"
        "PARTIAL_BRANCH_QUERY_ADDRESS" "query_admission"
        ["address", a.occurrenceAlias, a.portName]) policy.branches

section

variable (host : Host) (entityHost : Entity.Host) (space : SemanticAddressSpace)
  (index : SchemaIndex)

/-- `_resolve`. -/
def resolveQueryAddress (a : SemanticPortAddress) : Except QueryError ResolvedSemanticPortRef :=
  match space.resolve host a with
  | .ok r => .ok r
  | .error e => queryError e.message "UNRESOLVED_QUERY_ADDRESS" "query_admission"
      ["address", a.occurrenceAlias, a.portName]

/-- The message of an error of the schema index. -/
def faultMessage (f : Fault) : String := (toErrorDto f).message

/-- A call of the schema index whose error is adapted. -/
def adaptFault {α : Type} (code : String) (path : List String) :
    Except Fault α → Except QueryError α
  | .ok a => .ok a
  | .error f => queryError (faultMessage f) code "query_admission" path

/-- `_endpoint_value_type`. An error of the schema index passes through. -/
def endpointValueType : SemanticEndpoint → Except QueryError String
  | .entityIdentity _ => .ok "entity_ref"
  | .field entityType fieldName => do
      let info ← adaptFault "FIELD_PATH_NOT_FOUND" [] (fieldPredicate index entityType fieldName)
      .ok (info.valueTypeDomain.getD "None")
  | .functionValue _ _ _ _ domain _ => .ok domain

/-- `_resolve_navigation_selection`: the value type and the predicate of the field. -/
def resolveNavigation (aliasName : String) (base : SemanticPortAddress)
    (entityType fieldName : String) : Except QueryError (String × String) := do
  let resolved ← resolveQueryAddress host space base
  match resolved.endpoint with
  | .entityIdentity t => do
      require (t = entityType)
        ⟨"Query field navigation must stay on the identity endpoint entity type",
          "INVALID_QUERY_NAVIGATION", "query_admission", ["selections", aliasName, "field"]⟩
      let info ← adaptFault "INVALID_QUERY_NAVIGATION" ["selections", aliasName, "field"]
        (fieldPredicate index entityType fieldName)
      match fieldValueType info with
      | .scalar (some domain) => do
          require (info.cardinality = "single" && !info.isIdentityField)
            ⟨"Query field navigation must select one non-identity scalar field",
              "UNSUPPORTED_QUERY_NAVIGATION", "query_admission",
              ["selections", aliasName, "field"]⟩
          .ok (domain, info.predId)
      | .scalar none | .entityRef =>
          queryError "Query field navigation must select one non-identity scalar field"
            "UNSUPPORTED_QUERY_NAVIGATION" "query_admission" ["selections", aliasName, "field"]
  | .field .. | .functionValue .. =>
      queryError "Query field navigation must start at an EntityIdentity port"
        "INVALID_QUERY_NAVIGATION" "query_admission" ["selections", aliasName, "base"]

/-- A selection, resolved. -/
def resolveSelection (policy : CompiledPolicy) (s : QuerySelection) :
    Except QueryError ResolvedSelection :=
  match s.source with
  | .navigation base entityType fieldName => do
      let (domain, predicateId) ← resolveNavigation host space index s.aliasName base entityType
        fieldName
      let sources ← branchSources policy base
      .ok ⟨s.aliasName, domain, some predicateId, sources⟩
  | .direct a => do
      let resolved ← resolveQueryAddress host space a
      let domain ← endpointValueType index resolved.endpoint
      let sources ← branchSources policy a
      .ok ⟨s.aliasName, domain, none, sources⟩

/-! ## Bound values -/

/-- `typed_value.lower()` of a `uuid` text. -/
def lowerUuid (domain : String) : Datum → Datum
  | .leaf (.str s) => if domain = "uuid" then .leaf (.str s.toLower) else .leaf (.str s)
  | d => d

/-- A scalar bound to a port of the domain. -/
def scalarOf (domain text : String) : FieldValue → Except String Datum
  | .ref _ => .error text
  | .scalar d => .ok (lowerUuid domain d)

/-- The type and the value that a binding gives to an endpoint, and the predicate of a field. -/
def typedValue (endpoint : SemanticEndpoint) (value : FieldValue) :
    Except String (String × Datum × Option PredicateInfo) :=
  match endpoint with
  | .entityIdentity entityType =>
      match value with
      | .scalar _ => .error s!"expected EntityRef[{entityType}]"
      | .ref ref =>
          if ref.entityType = entityType then
            match (do
              let identity ← materializeIdentity entityHost index entityType ref.identity
              encodeEntityRef entityHost index ⟨entityType, identity, none⟩) with
            | .ok encoded => .ok ("entity_ref", .leaf (.str encoded), none)
            | .error f => .error (faultMessage f)
          else .error s!"expected EntityRef[{entityType}]"
  | .field entityType fieldName => do
      let info ← match fieldPredicate index entityType fieldName with
        | .ok info => .ok info
        | .error f => .error (faultMessage f)
      let domain := info.valueTypeDomain.getD "None"
      let d ← scalarOf domain "field endpoint expects scalar value" value
      .ok (domain, d, some info)
  | .functionValue _ _ _ _ domain _ => do
      let d ← scalarOf domain "function scalar endpoint expects scalar value" value
      .ok (domain, d, none)

/-- `normalized.startswith("$")`, of a string. -/
def isDollarText : Rules.Value → Bool
  | .str s => startsWith "$" s
  | .none | .bool _ | .int _ | .float _ | .bytes _ => false

/-- A call of the protocol or of the validation of values, with the text of its error. -/
def textOf {α : Type} : Except StoreErr α → Except String α
  | .ok a => .ok a
  | .error e => .error (errorText e)

/-- The cell of a bound value, and its type. -/
def boundCell (endpoint : SemanticEndpoint) (value : FieldValue) :
    Except String (String × Rules.Value) := do
  let (domain, d, info?) ← typedValue entityHost index endpoint value
  let normalized ← textOf (valAtomForClaimArg domain d)
  require (!isDollarText normalized)
    "native lowering cannot preserve a '$'-prefixed string constant"
  -- the digest of the value, which for `bytes` is that of the text decoded
  let _ ← textOf (canonicalBytesTupV1
    [(domain, if domain = "bytes" then d else View.datumOf normalized)])
  match info? with
  | none => .ok (domain, normalized)
  | some info =>
      match validateFieldValue entityHost (.scalar (View.datumOf normalized)) info with
      | .ok () => .ok (domain, normalized)
      | .error f => .error (faultMessage f)

/-- `endpoint.mode == "output"`. -/
def isOutput : SemanticEndpoint → Bool
  | .functionValue _ _ _ output _ _ => output
  | .entityIdentity _ | .field _ _ => false

/-- `_normalize_binding`. -/
def normalizeBinding (b : QueryBinding) (endpoint : SemanticEndpoint) :
    Except QueryError (String × Rules.Value) := do
  require (!isOutput endpoint)
    ⟨"Function output ports are derived values and cannot be Query inputs",
      "EVALUATION_QUERY_OUTPUT_BINDING_UNSUPPORTED", "query_admission",
      ["bindings", b.address.occurrenceAlias, b.address.portName]⟩
  match boundCell entityHost index endpoint b.value with
  | .ok found => .ok found
  | .error msg =>
      queryError s!"query binding is incompatible with its semantic endpoint: {msg}"
        "QUERY_BINDING_TYPE_MISMATCH" "query_admission"
        ["bindings", b.address.occurrenceAlias, b.address.portName]

/-- A binding, resolved. -/
def resolveBinding (policy : CompiledPolicy) (b : QueryBinding) :
    Except QueryError ResolvedBinding := do
  let resolved ← resolveQueryAddress host space b.address
  let (valueType, value) ← normalizeBinding entityHost index b resolved.endpoint
  let sources ← branchSources policy b.address
  .ok ⟨valueType, value, sources⟩

end

/-! ## Plans -/

/-- `_RuleExprQueryHeadLink`. -/
structure QueryHeadLink where
  branchId : String
  headPortName : String
  occurrenceAlias : String
  portName : String
  deriving DecidableEq, Repr

/-- `_RuleExprQueryValueBinding`. -/
structure QueryValueBinding where
  branchId : String
  occurrenceAlias : String
  portName : String
  value : Rules.Value
  deriving DecidableEq, Repr

/-- `_RuleExprQueryNavigationLookup`. -/
structure QueryNavigationLookup where
  branchId : String
  headPortName : String
  occurrenceAlias : String
  portName : String
  fieldPredicateId : String
  deriving DecidableEq, Repr

def QueryHeadLink.sortKey (l : QueryHeadLink) : String ×ₗ String ×ₗ String ×ₗ String :=
  toLex (l.branchId, toLex (l.headPortName, toLex (l.occurrenceAlias, l.portName)))

def QueryValueBinding.sortKey (b : QueryValueBinding) : String ×ₗ String ×ₗ String :=
  toLex (b.branchId, toLex (b.occurrenceAlias, b.portName))

def QueryNavigationLookup.sortKey (l : QueryNavigationLookup) :
    String ×ₗ String ×ₗ String ×ₗ String ×ₗ String :=
  toLex (l.branchId, toLex (l.headPortName, toLex (l.occurrenceAlias,
    toLex (l.portName, l.fieldPredicateId))))

/-- `RuleExprLoweringPlan` of an evaluation query: its head is `Rule.projection(*head)`. -/
structure LoweringPlan where
  head : List String
  branches : List LoweringBranch
  occurrenceMap : List OccurrenceBinding
  headLinks : List QueryHeadLink
  valueBindings : List QueryValueBinding
  lookups : List QueryNavigationLookup
  conditions : List PolicyCondition

/-- `_query_port_binding`. -/
def queryPortBinding (plan : LoweringPlan) (branchId occurrenceAlias portName : String) :
    Except String PortBinding :=
  match plan.branches.find? fun b => b.branchId = branchId with
  | none => .error "query source is absent from its declared branch"
  | some b => do
      require (occurrenceAlias ∈ b.occurrenceAliases)
        "query source is absent from its declared branch"
      match occurrenceBinding plan.occurrenceMap occurrenceAlias with
      | none => .error s!"head projection occurrence {occurrenceAlias} is missing"
      | some o =>
          match portBinding o portName with
          | none => .error s!"head port {portName} is missing from projection occurrence"
          | some p => .ok p

/-- `_validate_query_extensions`. -/
def validateQueryExtensions (plan : LoweringPlan) : Except String Unit := do
  let direct := plan.headLinks.map fun l => (l.branchId, l.headPortName)
  let navigation := plan.lookups.map fun l => (l.branchId, l.headPortName)
  let expected := plan.branches.flatMap fun b => plan.head.map fun p => (b.branchId, p)
  require (decide ((direct ++ navigation).Nodup) &&
      decide ((direct ++ navigation).toFinset = expected.toFinset))
    ("query direct links and navigation lookups must exactly and disjointly cover every head port " ++
      "in every branch")
  each (fun l => do
    let _ ← queryPortBinding plan l.branchId l.occurrenceAlias l.portName) plan.headLinks
  each (fun l => do
    let _ ← queryPortBinding plan l.branchId l.occurrenceAlias l.portName) plan.lookups
  require (decide (plan.valueBindings.map fun b =>
      (b.branchId, b.occurrenceAlias, b.portName)).Nodup)
    "query value bindings must be unique per branch port"
  each (fun b => do
    let _ ← queryPortBinding plan b.branchId b.occurrenceAlias b.portName) plan.valueBindings

/-- `_validate_policy_conditions`: the branches of conditions, and that none is there twice. The
conditions are in the order of their roles. -/
def validatePolicyConditions (plan : LoweringPlan) : Except String Unit := do
  require (plan.conditions.all fun c => plan.branches.any fun b => b.branchId = c.branchId)
    "Policy condition references an absent lowering branch"
  require (decide (plan.conditions.map fun c =>
      (c.branchId, c.policyNodeId, c.role.conditionId)).Nodup)
    "Policy condition coordinates must be unique"

/-- `_attach_evaluation_query_head`. -/
def attachEvaluationQueryHead (body : BodyPlan) (head : List String)
    (headLinks : List QueryHeadLink) (valueBindings : List QueryValueBinding)
    (lookups : List QueryNavigationLookup) (conditions : List PolicyCondition) :
    Except String LoweringPlan := do
  let plan : LoweringPlan := {
    head
    branches := body.branches
    occurrenceMap := body.occurrenceMap
    headLinks := sortBy QueryHeadLink.sortKey headLinks
    valueBindings := sortBy QueryValueBinding.sortKey valueBindings
    lookups := sortBy QueryNavigationLookup.sortKey lookups
    conditions := sortBy PolicyCondition.sortKey conditions }
  validateQueryExtensions plan
  validatePolicyConditions plan
  .ok plan

/-! ## Compiled queries -/

/-- `_query_head_links`. -/
def queryHeadLinks (selections : List ResolvedSelection) : List QueryHeadLink :=
  selections.flatMap fun s => match s.fieldPredicateId with
    | none => s.sources.map fun p => ⟨p.branchId, s.aliasName, p.occurrenceAlias, p.portName⟩
    | some _ => []

/-- `_query_navigation_lookups`. -/
def queryNavigationLookups (selections : List ResolvedSelection) : List QueryNavigationLookup :=
  selections.flatMap fun s => match s.fieldPredicateId with
    | none => []
    | some predicateId => s.sources.map fun p =>
        ⟨p.branchId, s.aliasName, p.occurrenceAlias, p.portName, predicateId⟩

/-- `_query_value_bindings`. -/
def queryValueBindings (bindings : List ResolvedBinding) : List QueryValueBinding :=
  bindings.flatMap fun b => b.sources.map fun p =>
    ⟨p.branchId, p.occurrenceAlias, p.portName, b.value⟩

/-- `_applicable_body`. -/
def applicableBody (policy : CompiledPolicy) (applicable : List String) : BodyPlan :=
  if applicable.isEmpty then policy.bodyPlan
  else { policy.bodyPlan with
    branches := policy.bodyPlan.branches.filter fun b => b.branchId ∈ applicable }

/-- `_applicable_policy_conditions`. -/
def applicablePolicyConditions (policy : CompiledPolicy) (applicable : List String) :
    List PolicyCondition :=
  if applicable.isEmpty then policy.conditions
  else policy.conditions.filter fun c => c.branchId ∈ applicable

/-- `CompiledEvaluationQueryV0`. -/
structure CompiledQuery where
  bindings : List ResolvedBinding
  selections : List ResolvedSelection
  applicable : List String
  plan : LoweringPlan

/-- The constructor of `CompiledEvaluationQueryV0`. The applicable branches are some of the policy's
in their order, none for all of them; every source set is of these branches; the plan is the one
that the query derives. -/
def sealQuery (policy : CompiledPolicy) (bindings : List ResolvedBinding)
    (selections : List ResolvedSelection) (applicable : List String) :
    Except String CompiledQuery := do
  let all := policy.branches.map (·.branchId)
  let ids := if applicable.isEmpty then all else applicable
  require (!selections.isEmpty) "compiled EvaluationQuery requires selections and a projection head"
  require (!ids.isEmpty && decide ids.Nodup && decide (ids = all.filter (· ∈ ids)))
    "compiled EvaluationQuery applicable branches are malformed"
  require ((bindings.map (·.sources) ++ selections.map (·.sources)).all fun sources =>
      decide ((sources.map (·.branchId)).toFinset = ids.toFinset))
    "compiled EvaluationQuery sources are not case-total"
  let plan ← attachEvaluationQueryHead (applicableBody policy applicable)
    (selections.map (·.aliasName)) (queryHeadLinks selections) (queryValueBindings bindings)
    (queryNavigationLookups selections) (applicablePolicyConditions policy applicable)
  .ok ⟨bindings, selections, applicable, plan⟩

/-- `_PROJECTION_ID_PREFIX`. -/
def projectionIdPrefix : String := "__factgraph_projection__"

def jsonText (s : String) : String := String.ofList (Evidence.jsonString s)

def jsonList (items : List String) : String := "[" ++ ",".intercalate items ++ "]"

/-- `_projection_rule_id`. -/
def projectionRuleId (host : Host) (names : List String) : String :=
  projectionIdPrefix ++ String.ofList ((host.sha256Hex (jsonList (names.map jsonText))).toList.take 16)

/-- `compile_evaluation_query`. -/
def compileEvaluationQuery (host : Host) (entityHost : Entity.Host) (policy : CompiledPolicy)
    (space : SemanticAddressSpace) (index : SchemaIndex) (q : EvaluationQuery) :
    Except QueryError CompiledQuery := do
  let bindings ← mapOk (resolveBinding host entityHost space index policy) q.bindings
  let selections ← mapOk (resolveSelection host space index policy) q.selections
  require (!Dict.has index.predicatesById
      (projectionRuleId host (selections.map (·.aliasName))))
    ⟨"query projection id collides with the trusted schema namespace",
      "QUERY_PROJECTION_NAMESPACE_COLLISION", "query_admission", []⟩
  match sealQuery policy bindings selections [] with
  | .ok compiled => .ok compiled
  | .error _ =>
      queryError "query lowering rejected trusted compiled inputs" "QUERY_LOWERING_INVARIANT"
        "query_compiler_invariant" []

end FactGraph.Policy
