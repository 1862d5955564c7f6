import FactGraph.Scenario.Values

/-!
# Scenarios and the worlds they are resolved to

`application/protocol/scenario_v1.py`: the operations of a scenario, the typed facts of a world, the
operations a resolved scenario lists and the closure targets it carries.

The constructors of the protocol sort what they are given (the operations of a specification, the
members of an exact set); any order is allowed here. The digests of a whole world are left out.
-/

namespace FactGraph.Scenario

open Protocol Store Check Entity

/-! ## The schema -/

/-- `SchemaIndex`, with the document it was built from and its digest. -/
structure Schema where
  doc : SchemaDoc
  index : SchemaIndex
  digest : String

/-- The tags `_predicate_domains` accepts. -/
def valueTags : List String :=
  ["string", "int", "float64", "bool", "bytes", "time", "uuid", "entity_ref"]

/-- The loop of `_predicate_domains`. -/
def domainsIn (predicateId : String) : List PredicateDoc → Option (List String)
  | [] => none
  | p :: ps =>
      if p.predId = predicateId then
        if p.argSpecs.isEmpty then none
        else if p.argSpecs.all (·.typeDomain ∈ valueTags) then some (p.argSpecs.map (·.typeDomain))
        else domainsIn predicateId ps
      else domainsIn predicateId ps

/-- `_predicate_domains`. -/
def predicateDomains (host : Host) (schema : Schema) (predicateId : String) :
    Except Fault (List String) :=
  match domainsIn predicateId schema.doc.predicates with
  | some domains => .ok domains
  | none => reject (s!"projected predicate {host.entity.reprText predicateId} has no supported " ++
      "schema signature") "SCENARIO_RELATION_SCHEMA_UNKNOWN"

/-! ## Operations -/

/-- What the operations on a field share; the field is one of the type of the entity. -/
structure FieldBase where
  premiseId : String
  entity : EntityRef
  fieldName : String
  originRefs : List String := []

/-- `ScenarioOperationV1`. -/
inductive Operation where
  | setEffectiveValue (base : FieldBase) (value : ScenarioValue)
  | ensureMember (base : FieldBase) (value : ScenarioValue)
  | setExactMembers (base : FieldBase) (values : List ScenarioValue)
  | withoutField (base : FieldBase)
  | withoutValue (base : FieldBase) (value : ScenarioValue)
  | createEphemeralEntity (premiseId : String) (entity : EntityRef) (originRefs : List String)
  | ensureRelation (premiseId predicateId : String) (values : List ScenarioValue)
      (originRefs : List String)
  | withoutRelation (premiseId predicateId : String) (originRefs : List String)
  | withoutEntity (premiseId : String) (entity : EntityRef) (originRefs : List String)
  | withoutAssertion (premiseId assertionId : String) (originRefs : List String)

def Operation.premiseId : Operation → String
  | .setEffectiveValue base _ | .ensureMember base _ | .setExactMembers base _
  | .withoutField base | .withoutValue base _ => base.premiseId
  | .createEphemeralEntity premiseId _ _ | .ensureRelation premiseId _ _ _
  | .withoutRelation premiseId _ _ | .withoutEntity premiseId _ _
  | .withoutAssertion premiseId _ _ => premiseId

/-- `ScenarioSpecV1`. -/
structure ScenarioSpec where
  operations : List Operation
  premises : (operations.map Operation.premiseId).Nodup

/-! ## Facts -/

inductive Source where
  | baseline
  | scenario
  deriving DecidableEq

/-- `EffectiveWorldFactV1`. -/
structure WorldFact where
  predicateId : String
  witnessId : String
  values : List ScenarioValue
  source : Source
  deriving DecidableEq

/-- `_require_non_empty_str`. -/
def requireNonEmptyStr (value fieldName : String) : Except Fault Unit :=
  require (value ≠ "") (.protocolShape s!"{fieldName} must be non-empty string")

/-- `EffectiveWorldFactV1.__post_init__`. -/
def worldFact (predicateId witnessId : String) (values : List ScenarioValue) (source : Source) :
    Except Fault WorldFact := do
  requireNonEmptyStr predicateId "EffectiveWorldFactV1.predicate_id"
  requireNonEmptyStr witnessId "EffectiveWorldFactV1.witness_id"
  require (!values.isEmpty)
    (.protocolShape "EffectiveWorldFactV1.values must be non-empty ScenarioValueV1 tuple")
  .ok ⟨predicateId, witnessId, values, source⟩

/-- `fact_digest`. -/
def WorldFact.digest (host : Host) (f : WorldFact) : String :=
  host.token "effective_world_fact_v1" (.obj [
    ("predicate_id", text f.predicateId),
    ("witness_id", text f.witnessId),
    ("values", .arr (f.values.map (·.payload))),
    ("source_kind", text (match f.source with | .baseline => "baseline" | .scenario => "scenario"))])

/-- `except ProtocolShapeError as exc: raise ScenarioResolutionErrorV1(str(exc), code=code)`. -/
def adaptShape {α : Type} (code : String) : Except Fault α → Except Fault α
  | .error (.protocolShape message) => reject message code
  | r => r

theorem adaptShape_ok_iff {α : Type} {code : String} {r : Except Fault α} {a : α} :
    adaptShape code r = .ok a ↔ r = .ok a := by
  unfold adaptShape
  split
  next => simp [reject]
  next => rfl

/-- The values of a row under the domains of its predicate. -/
def typedValues (host : Host) (predicateId : String) (domains : List String) (row : Row) :
    Except Fault (List ScenarioValue) := do
  demand (row.factTuple.length = domains.length)
    s!"projected row arity for {host.entity.reprText predicateId} is inconsistent with schema"
    "SCENARIO_RELATION_ARITY_MISMATCH"
  adaptShape "SCENARIO_RELATION_VALUE_INVALID"
    (mapOk (fun p => ScenarioValue.fromRaw p.1 p.2) (domains.zip row.factTuple))

/-- The fact a row stands for. -/
def typedFact (host : Host) (predicateId : String) (domains : List String)
    (scenarioWitnessIds : List String) (row : Row) : Except Fault WorldFact := do
  let values ← typedValues host predicateId domains row
  worldFact predicateId row.asrtId values
    (if row.asrtId ∈ scenarioWitnessIds then .scenario else .baseline)

/-- `_typed_facts`. -/
def typedFacts (host : Host) (schema : Schema) (r : Relation) (scenarioWitnessIds : List String) :
    Except Fault (List WorldFact) :=
  collect (fun p => do
    let domains ← predicateDomains host schema p.1
    mapOk (typedFact host p.1 domains scenarioWitnessIds) p.2) r.entries

/-! ## Resolved operations -/

/-- `ScenarioOperationKindV1`. -/
inductive Kind where
  | setEffectiveValue | ensureMember | setExactMembers | withoutField | withoutValue
  | createEphemeralEntity | ensureRelation | withoutRelation | withoutEntity | withoutAssertion
  deriving DecidableEq

/-- The word of a kind. -/
def Kind.word : Kind → String
  | .setEffectiveValue => "set_effective_value"
  | .ensureMember => "ensure_member"
  | .setExactMembers => "set_exact_members"
  | .withoutField => "without_field"
  | .withoutValue => "without_value"
  | .createEphemeralEntity => "create_ephemeral_entity"
  | .ensureRelation => "ensure_relation"
  | .withoutRelation => "without_relation"
  | .withoutEntity => "without_entity"
  | .withoutAssertion => "without_assertion"

/-- `ResolvedScenarioOperationV1`. The field is given by its name: its type is the entity type. -/
structure ResolvedOperation where
  kind : Kind
  entityRef : Option String := none
  entityType : Option String := none
  predicateId : Option String := none
  fieldName : Option String := none
  assertionId : Option String := none
  values : List ScenarioValue := []
  premiseIds : List String
  originRefs : List String
  maskedWitnessIds : List String := []
  syntheticWitnessIds : List String := []
  deriving DecidableEq

def optional (s : Option String) : Datum := (s.map text).getD (.leaf .none)

/-- `operation_digest`. -/
def ResolvedOperation.digest (host : Host) (o : ResolvedOperation) : String :=
  host.token "resolved_scenario_operation_v1" (.obj [
    ("kind", text o.kind.word),
    ("entity_ref", optional o.entityRef),
    ("entity_type", optional o.entityType),
    ("predicate_id", optional o.predicateId),
    ("field", match o.entityType, o.fieldName with
      | some entityType, some fieldName => .arr [text entityType, text fieldName]
      | _, _ => .leaf .none),
    ("assertion_id", optional o.assertionId),
    ("values", .arr (o.values.map (·.payload))),
    ("premise_ids", .arr (o.premiseIds.map text)),
    ("origin_refs", .arr (o.originRefs.map text)),
    ("masked_witness_ids", .arr (o.maskedWitnessIds.map text)),
    ("synthetic_witness_ids", .arr (o.syntheticWitnessIds.map text))])

/-! ## Closure targets -/

/-- `ExactLocalClosureTargetV1`. -/
inductive ClosureTarget where
  | field (entityRef predicateId : String)
  | member (entityRef predicateId : String) (value : ScenarioValue)
  | exactSet (entityRef predicateId : String) (members : List ScenarioValue)
  | relation (predicateId : String)
  | entity (entityRef : String)
  | assertion (predicateId assertionId : String)
  deriving DecidableEq

/-- Sort by a key. -/
def sortOn {α : Type} (key : α → String) (as : List α) : List α :=
  as.insertionSort fun a b => key a ≤ key b

@[simp] theorem mem_sortOn {α : Type} {key : α → String} {as : List α} {a : α} :
    a ∈ sortOn key as ↔ a ∈ as := List.mem_insertionSort _

/-- What is in order stays as it is. -/
theorem sortOn_sortOn {α : Type} (key : α → String) (as : List α) :
    sortOn key (sortOn key as) = sortOn key as := by
  have htotal : Std.Total fun a b : α => key a ≤ key b := ⟨fun a b => le_total (key a) (key b)⟩
  have htrans : IsTrans α fun a b : α => key a ≤ key b := ⟨fun _ _ _ => le_trans⟩
  exact (List.pairwise_insertionSort (fun a b : α => key a ≤ key b) as).insertionSort_eq

/-- The members of an exact set, in the order of their digests. -/
def ClosureTarget.exactMembers (host : Host) (entityRef predicateId : String)
    (members : List ScenarioValue) : Except Fault ClosureTarget := do
  require ((members.map (·.valueDigest host)).Nodup)
    (.protocolShape "closure target members must be unique")
  .ok (.exactSet entityRef predicateId (sortOn (·.valueDigest host) members))

/-- The payload of a closure target. -/
def targetPayload (kind : String) (entityRef predicateId : Option String) (value : Datum)
    (assertionId : Option String) (members : List ScenarioValue) : Datum :=
  .obj [("kind", text kind), ("entity_ref", optional entityRef),
    ("predicate_id", optional predicateId), ("value", value),
    ("assertion_id", optional assertionId), ("members", .arr (members.map (·.payload)))]

/-- `target_digest`. -/
def ClosureTarget.digest (host : Host) (t : ClosureTarget) : String :=
  host.token "scenario_exact_local_closure_target_v1" <| match t with
    | .field e p => targetPayload "field" e p (.leaf .none) none []
    | .member e p v => targetPayload "member" e p v.payload none []
    | .exactSet e p members => targetPayload "exact_set" e p (.leaf .none) none members
    | .relation p => targetPayload "relation" none p (.leaf .none) none []
    | .entity e => targetPayload "entity" e none (.leaf .none) none []
    | .assertion p w => targetPayload "assertion" none p (.leaf .none) w []

/-- `ClosureScopeV1`. -/
def closureScope (host : Host) (targets : List ClosureTarget) : Except Fault (List ClosureTarget) := do
  require ((targets.map (·.digest host)).Nodup)
    (.protocolShape "ClosureScopeV1.targets must be unique")
  .ok (sortOn (·.digest host) targets)

/-! ## Worlds -/

/-- `EffectiveWorldV1`. -/
structure World where
  schemaDigest : String
  baseViewDigest : String
  admissibilityDigest : String
  dependencyPredicateIds : List String
  facts : List WorldFact
  operations : List ResolvedOperation
  closure : List ClosureTarget

/-- `_sha256_token`. -/
def isSha256Token (value : String) : Bool :=
  let chars := value.toList.drop "sha256:".length
  startsWith "sha256:" value && (chars.length == 64 && chars.all fun c => (hexValue? c).isSome)

/-- `EffectiveWorldV1.__post_init__`. -/
def effectiveWorld (host : Host) (schemaDigest baseViewDigest admissibilityDigest : String)
    (dependencyPredicateIds : List String) (facts : List WorldFact)
    (operations : List ResolvedOperation) (closure : List ClosureTarget) : Except Fault World := do
  each (fun p => require (isSha256Token p.2)
      (.protocolShape s!"EffectiveWorldV1.{p.1} must be a sha256 token"))
    [("schema_digest", schemaDigest), ("base_view_digest", baseViewDigest),
      ("admissibility_digest", admissibilityDigest)]
  each (fun p => requireNonEmptyStr p "EffectiveWorldV1.dependency_predicate_ids")
    dependencyPredicateIds
  require (!dependencyPredicateIds.isEmpty)
    (.protocolShape "EffectiveWorldV1.dependency_predicate_ids must be non-empty")
  require (facts.all (·.predicateId ∈ dependencyPredicateIds))
    (.protocolShape "EffectiveWorldV1.facts must belong to dependency predicates")
  require ((facts.map (·.witnessId)).Nodup)
    (.protocolShape "EffectiveWorldV1.fact witness ids must be unique")
  .ok { schemaDigest, baseViewDigest, admissibilityDigest
        dependencyPredicateIds := canonicalStrings dependencyPredicateIds
        facts := sortOn (·.digest host) facts
        operations := sortOn (·.digest host) operations
        closure }

end FactGraph.Scenario
