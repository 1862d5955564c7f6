import FactGraph.Scenario.Spec

/-!
# Intents and their normalization

`application/scenario_v1_runtime.py`, from `_canonical_entity_ref` to `_normalize_entity_group`: what
an operation asks for once its target is looked up in the schema, and what the intents on one target
amount to together. `_Intent` is one record with absent fields; here each family of operations has
an intent of its own.
-/

namespace FactGraph.Scenario

open Protocol Store Check Entity

/-! ## Looking up targets -/

/-- `except ValueError`: the code of the error, where it has one. -/
def adaptValueError {α : Type} (code : String) : Except Entity.Fault α → Except Fault α
  | .ok a => .ok a
  | .error (.schemaResolution dto) => reject dto.message dto.code
  | .error (.other (.valueError message)) => reject message code
  | .error e => .error (.other e)

theorem adaptValueError_ok_iff {α : Type} {code : String} {r : Except Entity.Fault α} {a : α} :
    adaptValueError code r = .ok a ↔ r = .ok a := by
  unfold adaptValueError
  split <;> simp [reject]

/-- `_canonical_entity_ref`. -/
def canonicalEntityRef (host : Host) (schema : Schema) (entity : EntityRef) :
    Except Fault (EntityRef × String × EntityTypeInfo) :=
  adaptValueError "SCENARIO_ENTITY_REFERENCE_INVALID" do
    let identity ← materializeIdentity host.entity schema.index entity.entityType entity.identity
    let canonical : EntityRef := ⟨entity.entityType, identity, none⟩
    let encoded ← encodeEntityRef host.entity schema.index canonical
    let info ← entityInfo schema.index entity.entityType
    .ok (canonical, encoded, info)

/-- `_field_info`. -/
def fieldInfo (schema : Schema) (entityType fieldName : String) : Except Fault PredicateInfo := do
  let info ← adaptValueError "SCENARIO_FIELD_UNKNOWN"
    (fieldPredicate schema.index entityType fieldName)
  demand (!(info.isIdentityField || info.isEntityExists))
    s!"Scenario v1 cannot mutate identity/existence field {info.predId}" "SCENARIO_PROTECTED_FIELD"
  demand info.valueTypeDomain.isSome s!"field {info.predId} has no value type domain"
    "SCENARIO_FIELD_DOMAIN_UNKNOWN"
  .ok info

/-- `except FieldValueValidationError`. -/
def adaptValidation : Except Entity.Fault Unit → Except Fault Unit
  | .ok () => .ok ()
  | .error (.entityWrite dto) => reject dto.message dto.code
  | .error e => .error (.other e)

/-- `_checked_value`. -/
def checkedValue (host : Host) (value : ScenarioValue) (info : PredicateInfo) :
    Except Fault ScenarioValue := do
  demand (info.valueTypeDomain = some value.tag)
    (s!"Scenario value tag {host.entity.reprText value.tag} does not match {info.predId} domain " ++
      (info.valueTypeDomain.map host.entity.reprText).getD "None")
    "SCENARIO_VALUE_DOMAIN_MISMATCH"
  adaptValidation (validateFieldValue host.entity (.scalar value.toRaw) info)
  .ok value

/-! ## Intents -/

inductive FieldKind where
  | setEffectiveValue | ensureMember | setExactMembers | withoutField | withoutValue
  deriving DecidableEq

def FieldKind.kind : FieldKind → Kind
  | .setEffectiveValue => .setEffectiveValue
  | .ensureMember => .ensureMember
  | .setExactMembers => .setExactMembers
  | .withoutField => .withoutField
  | .withoutValue => .withoutValue

/-- An intent on a field of an entity. -/
structure FieldIntent where
  kind : FieldKind
  entityRef : String
  entityType : String
  fieldName : String
  info : PredicateInfo
  values : List ScenarioValue
  premiseIds : List String
  originRefs : List String

inductive RelationKind where
  | ensure | without
  deriving DecidableEq

def RelationKind.kind : RelationKind → Kind
  | .ensure => .ensureRelation
  | .without => .withoutRelation

/-- An intent on a relation. -/
structure RelationIntent where
  kind : RelationKind
  info : PredicateInfo
  values : List ScenarioValue
  premiseIds : List String
  originRefs : List String

/-- An entity to create, with the values of its identity fields. -/
structure CreateIntent where
  entityRef : String
  entityType : String
  premiseIds : List String
  originRefs : List String
  identityValues : List (String × ScenarioValue)

/-- An entity to remove. -/
structure EntityIntent where
  entityRef : String
  entityType : String
  premiseIds : List String
  originRefs : List String

/-- An assertion to remove. -/
structure AssertionIntent where
  assertionId : String
  premiseIds : List String
  originRefs : List String

/-- `_Intent`. -/
inductive Intent where
  | field (i : FieldIntent)
  | relation (i : RelationIntent)
  | create (i : CreateIntent)
  | entity (i : EntityIntent)
  | assertion (i : AssertionIntent)

/-- The part of `_field_intent` that the kinds of operations share. -/
def fieldIntent (host : Host) (schema : Schema) (base : FieldBase) (kind : FieldKind)
    (values : PredicateInfo → Except Fault (List ScenarioValue)) : Except Fault Intent := do
  let (_, entityRef, _) ← canonicalEntityRef host schema base.entity
  let info ← fieldInfo schema base.entity.entityType base.fieldName
  let values ← values info
  .ok (.field { kind, entityRef, entityType := base.entity.entityType, fieldName := base.fieldName
                info, values, premiseIds := [base.premiseId], originRefs := base.originRefs })

/-- `is_scenario_relation_predicate_v1`. -/
def isScenarioRelationPredicate (schema : Schema) (predicateId : String) : Bool :=
  match Dict.get? schema.index.predicatesById predicateId,
      schema.doc.predicates.find? fun p => p.predId = predicateId with
  | some info, some record =>
      !(info.isEntityExists || info.isIdentityField ||
        (info.pyFieldName.isSome && info.valueTypeDomain ≠ some "entity_ref") ||
        record.isDerived || record.kind = some "derived" || record.sourceKind = some "derived" ||
        startsWith "**" predicateId)
  | _, _ => false

/-- `_schema_predicate_record`. -/
def schemaPredicateRecord (host : Host) (schema : Schema) (predicateId : String) :
    Except Fault PredicateDoc :=
  match schema.doc.predicates.find? fun p => p.predId = predicateId with
  | some record => .ok record
  | none => reject (s!"predicate {host.entity.reprText predicateId} is not declared by the active " ++
      "schema") "SCENARIO_RELATION_SCHEMA_UNKNOWN"

/-- The lookups of `_relation_intent`: the predicate and its domains. -/
def relationTarget (host : Host) (schema : Schema) (predicateId : String) :
    Except Fault (PredicateInfo × List String) := do
  let _ ← schemaPredicateRecord host schema predicateId
  match Dict.get? schema.index.predicatesById predicateId with
  | none =>
      reject s!"predicate {host.entity.reprText predicateId} is not indexed"
        "SCENARIO_RELATION_SCHEMA_UNKNOWN"
  | some info => do
      demand (isScenarioRelationPredicate schema predicateId)
        s!"predicate {host.entity.reprText predicateId} is not an allowed extensional relation"
        "SCENARIO_DERIVED_RELATION_UNSUPPORTED"
      let domains ← predicateDomains host schema predicateId
      .ok (info, domains)

/-- The intent of an operation: `_field_intent`, `_relation_intent`, `_without_entity_intent` and the
two that `resolve_scenario_v1` makes itself. -/
def intentOf (host : Host) (schema : Schema) : Operation → Except Fault Intent
  | .setEffectiveValue base value => fieldIntent host schema base .setEffectiveValue fun info => do
      demand (info.cardinality = "single") "set_effective_value requires single field"
        "SCENARIO_CARDINALITY_MISMATCH"
      mapOk (checkedValue host · info) [value]
  | .ensureMember base value => fieldIntent host schema base .ensureMember fun info => do
      demand (info.cardinality = "multi") "ensure_member requires multi field"
        "SCENARIO_CARDINALITY_MISMATCH"
      mapOk (checkedValue host · info) [value]
  | .setExactMembers base values => fieldIntent host schema base .setExactMembers fun info => do
      demand (info.cardinality = "multi") "set_exact_members requires multi field"
        "SCENARIO_CARDINALITY_MISMATCH"
      mapOk (checkedValue host · info) values
  | .withoutField base => fieldIntent host schema base .withoutField fun _ => .ok []
  | .withoutValue base value => fieldIntent host schema base .withoutValue fun info =>
      mapOk (checkedValue host · info) [value]
  | .createEphemeralEntity premiseId entity originRefs => do
      let (canonical, entityRef, info) ← canonicalEntityRef host schema entity
      let identityValues ← mapOk (fun f => (ScenarioValue.fromRaw f.typeDomain
        ((Dict.get? canonical.identity f.name).getD (.leaf .none))).map fun v => (f.name, v))
        info.identityFields
      .ok (.create { entityRef, entityType := canonical.entityType, premiseIds := [premiseId]
                     originRefs, identityValues })
  | .ensureRelation premiseId predicateId values originRefs => do
      let (info, domains) ← relationTarget host schema predicateId
      demand (values.map (·.tag) = domains)
        s!"relation values do not match predicate signature for {host.entity.reprText predicateId}"
        "SCENARIO_VALUE_DOMAIN_MISMATCH"
      .ok (.relation { kind := .ensure, info, values, premiseIds := [premiseId], originRefs })
  | .withoutRelation premiseId predicateId originRefs => do
      let (info, _) ← relationTarget host schema predicateId
      .ok (.relation { kind := .without, info, values := [], premiseIds := [premiseId], originRefs })
  | .withoutEntity premiseId entity originRefs => do
      let (canonical, entityRef, _) ← canonicalEntityRef host schema entity
      .ok (.entity { entityRef, entityType := canonical.entityType, premiseIds := [premiseId]
                     originRefs })
  | .withoutAssertion premiseId assertionId originRefs =>
      .ok (.assertion { assertionId, premiseIds := [premiseId], originRefs })

/-! ## Groups -/

/-- The values of several intents, each once, in the order of their digests. -/
def distinctValues (host : Host) (values : List ScenarioValue) : List ScenarioValue :=
  sortOn (·.valueDigest host) values.dedup

@[simp] theorem mem_distinctValues {host : Host} {values : List ScenarioValue} {v : ScenarioValue} :
    v ∈ distinctValues host values ↔ v ∈ values := by
  rw [distinctValues, mem_sortOn, List.mem_dedup]

/-- The values of the intents of a kind. -/
def valuesOf (intents : List FieldIntent) (kind : FieldKind) : List ScenarioValue :=
  (intents.filter (·.kind = kind)).flatMap (·.values)

def demandNoConflict (c : Bool) (message : String) : Except Fault Unit :=
  demand c message "SCENARIO_OPERATION_CONFLICT"

/-- One intent for those of a group, with the metadata of all of them. -/
def FieldIntent.merged (sample : FieldIntent) (intents : List FieldIntent) (kind : FieldKind)
    (values : List ScenarioValue) : FieldIntent :=
  { sample with
    kind, values
    premiseIds := canonicalStrings (intents.flatMap (·.premiseIds))
    originRefs := canonicalStrings (intents.flatMap (·.originRefs)) }

/-- `_normalize_field_group`; the intent it returns is the only one. -/
def normalizeFieldGroup (host : Host) : List FieldIntent → Except Fault FieldIntent
  | [] => reject "empty scenario field group" "SCENARIO_INTERNAL_EMPTY_GROUP"
  | sample :: rest => do
      let intents := sample :: rest
      demand (intents.all (·.info = sample.info)) "internal field target mismatch"
        "SCENARIO_INTERNAL_TARGET_MISMATCH"
      let ensured := valuesOf intents .ensureMember
      let refused := valuesOf intents .withoutValue
      let hasField := intents.any (·.kind = .withoutField)
      let hasEnsures := intents.any (·.kind = .ensureMember)
      match intents.filter (·.kind = .setExactMembers), intents.filter (·.kind = .setEffectiveValue)
      with
      | exact :: others, _ => do
          demandNoConflict (others.all (·.values = exact.values)) "conflicting set_exact_members"
          demandNoConflict (ensured.all (· ∈ exact.values))
            "ensure member conflicts with exact member set"
          demandNoConflict (refused.all (· ∉ exact.values))
            "without value conflicts with exact member set"
          .ok (sample.merged intents .setExactMembers exact.values)
      | [], first :: others => do
          let selected := first.values.take 1
          demandNoConflict (others.all (·.values.take 1 = selected))
            "conflicting scalar replacement values"
          demandNoConflict (refused.all (· ∉ selected))
            "without value conflicts with scalar replacement"
          .ok (sample.merged intents .setEffectiveValue selected)
      | [], [] =>
          if hasField && hasEnsures then do
            -- a removed field with members to ensure is an exact set
            demandNoConflict (refused.all (· ∉ ensured)) "ensure member conflicts with without value"
            .ok (sample.merged intents .setExactMembers (distinctValues host ensured))
          else if hasField then .ok (sample.merged intents .withoutField [])
          else if hasEnsures then do
            demandNoConflict (refused.all (· ∉ ensured)) "ensure member conflicts with without value"
            -- the values to remove are forgotten here
            .ok (sample.merged intents .ensureMember (distinctValues host ensured))
          else .ok (sample.merged intents .withoutValue (distinctValues host refused))

/-- `_normalize_relation_group`. -/
def normalizeRelationGroup (host : Host) : List RelationIntent → Except Fault (List RelationIntent)
  | [] => .ok []
  | sample :: rest => do
      let intents := sample :: rest
      let merged (kind : RelationKind) (values : List ScenarioValue) : RelationIntent :=
        { kind, info := sample.info, values
          premiseIds := canonicalStrings (intents.flatMap (·.premiseIds))
          originRefs := canonicalStrings (intents.flatMap (·.originRefs)) }
      let ensures := intents.filter (·.kind = .ensure)
      if intents.any (·.kind = .without) then do
        demandNoConflict ensures.isEmpty "without relation conflicts with ensure relation"
        .ok [merged .without []]
      else
        let groups := (ensures.map (·.values)).dedup.insertionSort fun a b =>
          a.map (·.valueDigest host) ≤ b.map (·.valueDigest host)
        .ok (groups.map (merged .ensure))

/-- The entities to create, one for each reference. -/
def mergeCreates : List CreateIntent → Except Fault CreateIntent
  | [] => reject "conflicting ephemeral entity types" "SCENARIO_OPERATION_CONFLICT"
  | representative :: rest => do
      let intents := representative :: rest
      demandNoConflict (intents.all (·.entityType = representative.entityType))
        "conflicting ephemeral entity types"
      .ok { representative with
            premiseIds := canonicalStrings (intents.flatMap (·.premiseIds))
            originRefs := canonicalStrings (intents.flatMap (·.originRefs)) }

/-- `_normalize_entity_group`. -/
def normalizeEntityGroup : List EntityIntent → Except Fault EntityIntent
  | [] => reject "entity target mismatch" "SCENARIO_INTERNAL_TARGET_MISMATCH"
  | first :: rest => do
      let intents := first :: rest
      demand (intents.all fun i => i.entityRef = first.entityRef ∧ i.entityType = first.entityType)
        "entity target mismatch" "SCENARIO_INTERNAL_TARGET_MISMATCH"
      .ok { first with
            premiseIds := canonicalStrings (intents.flatMap (·.premiseIds))
            originRefs := canonicalStrings (intents.flatMap (·.originRefs)) }

/-- The assertions to remove, one for each id. -/
def mergeAssertions (assertionId : String) (intents : List AssertionIntent) : AssertionIntent where
  assertionId
  premiseIds := canonicalStrings (intents.flatMap (·.premiseIds))
  originRefs := canonicalStrings (intents.flatMap (·.originRefs))

end FactGraph.Scenario
