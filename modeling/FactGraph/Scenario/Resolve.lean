import FactGraph.Scenario.Intents

/-!
# Resolving a scenario

`resolve_scenario_v1` and what it calls: the grounding of relation operations, the five passes over
the effective relation, the closure targets, and the inventory of predicates a scenario needs
(`scenario_dependency_predicate_ids_v1`).

The passes run in a fixed order: assertions are taken out, then entities, then relations are changed,
then entities are created, then fields are changed. Each works on what the passes before it left.
-/

namespace FactGraph.Scenario

open Protocol Store Check Entity

/-! ## Grounding relation operations -/

/-- `entity_type_from_ref`. -/
def entityTypeFromRef (eRef : Datum) : Option String :=
  match eRef with
  | .leaf (.str s) =>
      if startsWith "idref_v1:" s then
        let rest := s.toList.drop "idref_v1:".length
        let entityType := rest.takeWhile (· ≠ ':')
        match rest.dropWhile (· ≠ ':') with
        | _ :: digest =>
            if entityType.isEmpty || digest.isEmpty then none else some (String.ofList entityType)
        | [] => none
      else none
  | _ => none

/-- The checks of `_visible_entity_refs` on the existence rows of an entity. -/
def requireExistsRow (host : Host) (info : EntityTypeInfo) (row : Row) : Except Fault Unit :=
  match row.factTuple with
  | [.leaf (.str s)] =>
      demand (entityTypeFromRef (text s) = some info.entityType)
        (s!"entity visibility predicate {host.entity.reprText info.existsPredicateId} has wrong " ++
          "entity type") "SCENARIO_ENTITY_VISIBILITY_INVALID"
  | _ => reject
      s!"entity visibility predicate {host.entity.reprText info.existsPredicateId} is malformed"
      "SCENARIO_ENTITY_VISIBILITY_INVALID"

/-- `_visible_entity_refs`, without the checks. -/
def visibleEntityRefs (schema : Schema) (r : Relation) : List Datum :=
  schema.index.entities.flatMap fun p =>
    (r.rows p.2.existsPredicateId).flatMap fun row => row.factTuple.take 1

/-- The check of one value in `_assert_relation_entities_visible`. -/
def requireVisible (host : Host) (schema : Schema) (r : Relation) (ephemeral : List String)
    (value : ScenarioValue) : Except Fault Unit :=
  if value.tag = "entity_ref" then
    let raw := value.toRaw
    match entityTypeFromRef raw with
    | none => reject "relation entity reference is not a canonical idref"
        "SCENARIO_RELATION_ENTITY_REFERENCE_INVALID"
    | some entityType =>
        match Dict.get? schema.index.entities entityType with
        | none => reject "relation entity reference names an unknown schema entity"
            "SCENARIO_RELATION_ENTITY_REFERENCE_INVALID"
        | some info => do
            demand (raw ∈ ephemeral.map text || (r.rows? info.existsPredicateId).isSome)
              s!"relation entity {host.entity.reprValue raw} lacks a sealed existence dependency"
              "SCENARIO_RELATION_ENTITY_VISIBILITY_UNAVAILABLE"
            demand (raw ∈ visibleEntityRefs schema r || raw ∈ ephemeral.map text)
              s!"relation entity {host.entity.reprValue raw} is not visible in this Scenario world"
              "SCENARIO_RELATION_ENTITY_NOT_VISIBLE"
  else .ok ()

/-- `_assert_relation_entities_visible`. -/
def assertRelationEntitiesVisible (host : Host) (schema : Schema) (r : Relation)
    (ephemeral : List String) (intents : List RelationIntent) : Except Fault Unit := do
  each (fun p => each (requireExistsRow host p.2) (r.rows p.2.existsPredicateId))
    schema.index.entities
  each (fun i => each (requireVisible host schema r ephemeral) i.values) intents

/-- Python `==` between two tuples. -/
def eqvTuple (xs ys : List Datum) : Bool := eqvData xs ys

/-- `_relation_group_key_indexes`. The indexes of a schema document are integers. -/
def relationGroupKeyIndexes (host : Host) (schema : Schema) (predicateId : String) :
    Except Fault (List Nat) := do
  let record ← schemaPredicateRecord host schema predicateId
  let arity := (← predicateDomains host schema predicateId).length
  let raw := record.groupKeyIndexes
  demand (!(raw.isEmpty || raw.any (fun i => i < 0 || arity ≤ i) ||
      raw.dedup.insertionSort (· ≤ ·) ≠ raw))
    s!"relation {host.entity.reprText predicateId} has invalid group-key contract"
    "SCENARIO_RELATION_SCHEMA_UNKNOWN"
  .ok (raw.map Int.toNat)

/-- The items at some positions. -/
def pick (positions : List Nat) (tuple : List Datum) : List Datum :=
  positions.filterMap fun i => tuple[i]?

/-- `known.setdefault(key, tuple)`, and the check that the tuple under the key is this one. -/
def setKnown (message code : String) (positions : List Nat) (known : List (List Datum × List Datum))
    (tuple : List Datum) : Except Fault (List (List Datum × List Datum)) :=
  match known.find? fun p => eqvTuple p.1 (pick positions tuple) with
  | none => .ok (known ++ [(pick positions tuple, tuple)])
  | some previous => do
      demand (eqvTuple previous.2 tuple) message code
      .ok known

/-- One turn of the loop of `_assert_relation_cardinality`. -/
def requireCardinality (host : Host) (schema : Schema) (r : Relation)
    (group : String × List RelationIntent) : Except Fault Unit :=
  match group.2 with
  | [] => .ok ()
  | first :: _ =>
      if first.info.cardinality = "single" then do
        let positions ← relationGroupKeyIndexes host schema group.1
        let known ← (r.rows group.1).foldlM (fun known row => setKnown
          (s!"single relation {host.entity.reprText group.1} has conflicting baseline tuples")
          "SCENARIO_BASELINE_CARDINALITY_CONFLICT" positions known row.factTuple) []
        let _ ← group.2.foldlM (fun known i => setKnown
          (s!"ensure relation would replace a single relation tuple in " ++
            host.entity.reprText group.1)
          "SCENARIO_OPERATION_CONFLICT" positions known (i.values.map (·.toRaw))) known
        .ok ()
      else .ok ()

/-- `_assert_relation_cardinality`. -/
def assertRelationCardinality (host : Host) (schema : Schema) (r : Relation)
    (intents : List RelationIntent) : Except Fault Unit :=
  each (requireCardinality host schema r)
    (Buckets.ofList (·.info.predId) id (intents.filter (·.kind = .ensure)))

/-! ## The passes -/

/-- The local variables of `_apply_intents`. -/
structure Progress where
  relation : Relation
  resolved : List ResolvedOperation := []
  syntheticIds : List String := []

/-- `_synthetic_id`. -/
def syntheticId (host : Host) (label : String) (payload : Datum) : String :=
  "scenario_v1:" ++ String.ofList ((host.token label payload).toList.drop "sha256:".length)

/-- `list[predicate_id].append(row)`. -/
def Relation.appendRow (r : Relation) (p : String × Row) : Relation :=
  r.set p.1 (r.rows p.1 ++ [p.2])

/-- The rows of an assertion id, with their predicates. -/
def Relation.matching (r : Relation) (witnessId : String) : List (String × Row) :=
  r.entries.flatMap fun p => (p.2.filter (·.asrtId = witnessId)).map fun row => (p.1, row)

/-- One turn of the first pass: an assertion is taken out. -/
def removeAssertion (host : Host) (schema : Schema) (s : Progress) (i : AssertionIntent) :
    Except Fault Progress :=
  match s.relation.matching i.assertionId with
  | [(predicateId, row)] => do
      let domains ← predicateDomains host schema predicateId
      let values ← mapOk (fun p => ScenarioValue.fromRaw p.1 p.2) (domains.zip row.factTuple)
      .ok { s with
        relation := s.relation.set predicateId
          ((s.relation.rows predicateId).filter (·.asrtId ≠ i.assertionId))
        resolved := s.resolved ++ [{
          kind := .withoutAssertion, predicateId := some predicateId
          assertionId := some i.assertionId, values
          premiseIds := i.premiseIds, originRefs := i.originRefs
          maskedWitnessIds := [i.assertionId] }] }
  | _ => reject
      s!"Scenario assertion {host.entity.reprText i.assertionId} is not uniquely admitted"
      "SCENARIO_ASSERTION_NOT_VISIBLE"

/-- `_entity_exists`. -/
def entityExists (host : Host) (r : Relation) (info : EntityTypeInfo) (entityRef : String) :
    Except Fault Bool :=
  match r.rows? info.existsPredicateId with
  | none => reject (s!"entity visibility predicate {host.entity.reprText info.existsPredicateId} " ++
      "is not in dependency relation") "SCENARIO_ENTITY_VISIBILITY_UNAVAILABLE"
  | some rows => .ok (rows.any fun row => eqvTuple row.factTuple [text entityRef])

/-- Does a tuple mention an entity? The two lists are as long as each other. -/
def mentionsEntity (entityRef : String) : List String → List Datum → Except Fault Bool
  | [], [] => .ok false
  | domain :: domains, value :: values =>
      if domain = "entity_ref" && eqvDatum value (text entityRef) then .ok true
      else mentionsEntity entityRef domains values
  | _, _ => .error (.other (.other (.valueError "zip() arguments have different lengths")))

/-- Does a row mention an entity? -/
def mentions (schema : Schema) (entityRef predicateId : String) (row : Row) : Bool :=
  match domainsIn predicateId schema.doc.predicates with
  | some domains => (mentionsEntity entityRef domains row.factTuple).toOption.getD false
  | none => false

/-- The errors of the loop that takes out the rows that mention an entity. -/
def requireMentions (host : Host) (schema : Schema) (entityRef : String)
    (p : String × List Row) : Except Fault Unit := do
  let domains ← predicateDomains host schema p.1
  each (fun row => (mentionsEntity entityRef domains row.factTuple).map fun _ => ()) p.2

/-- An error of the schema layer that is not caught. -/
def liftSchema {α : Type} : Except Entity.Fault α → Except Fault α
  | .ok a => .ok a
  | .error e => .error (.other e)

/-- One turn of the second pass: an entity is taken out, with every row that mentions it. -/
def removeEntity (host : Host) (schema : Schema) (s : Progress) (i : EntityIntent) :
    Except Fault Progress := do
  let info ← liftSchema (entityInfo schema.index i.entityType)
  let visible ← entityExists host s.relation info i.entityRef
  demand visible s!"scenario entity is not visible: {i.entityRef}" "SCENARIO_ENTITY_NOT_VISIBLE"
  each (requireMentions host schema i.entityRef) s.relation.entries
  let mentioned := s.relation.entries.flatMap fun p =>
    (p.2.filter (mentions schema i.entityRef p.1)).map (·.asrtId)
  .ok { s with
    relation := s.relation.mapRows fun p rows => rows.filter fun row =>
      !mentions schema i.entityRef p row
    resolved := s.resolved ++ [{
      kind := .withoutEntity, entityRef := some i.entityRef, entityType := some i.entityType
      premiseIds := i.premiseIds, originRefs := i.originRefs
      maskedWitnessIds := canonicalStrings mentioned }] }

/-- The row an ensured tuple is added as. -/
def relationRow (host : Host) (i : RelationIntent) : Row where
  asrtId := syntheticId host "scenario_effective_relation_fact_v1" (.obj [
    ("premise_ids", .arr (i.premiseIds.map text)), ("predicate", text i.info.predId),
    ("values", .arr (i.values.map fun v => text (v.valueDigest host)))])
  factTuple := i.values.map (·.toRaw)

/-- One turn of the third pass: a relation is emptied, or has a tuple. -/
def applyRelation (host : Host) (s : Progress) (i : RelationIntent) : Progress :=
  let p := i.info.predId
  let rows := s.relation.rows p
  let operation : ResolvedOperation :=
    { kind := i.kind.kind, predicateId := some p, values := i.values
      premiseIds := i.premiseIds, originRefs := i.originRefs }
  match i.kind with
  | .without =>
      { s with
        relation := s.relation.set p []
        resolved := s.resolved ++ [{ operation with
          maskedWitnessIds := canonicalStrings (rows.map (·.asrtId)) }] }
  | .ensure =>
      let row := relationRow host i
      if rows.any fun old => eqvTuple old.factTuple row.factTuple then
        { s with resolved := s.resolved ++ [operation] }
      else
        { relation := s.relation.appendRow (p, row)
          resolved := s.resolved ++ [{ operation with syntheticWitnessIds := [row.asrtId] }]
          syntheticIds := s.syntheticIds ++ [row.asrtId] }

/-- The existence row of an entity that is created. -/
def existsRow (host : Host) (i : CreateIntent) : Row where
  asrtId := syntheticId host "scenario_ephemeral_exists_v1" (.obj [
    ("operation", .arr (i.premiseIds.map text)), ("entity", text i.entityRef)])
  factTuple := [text i.entityRef]

/-- The identity row of a field of an entity that is created. -/
def identityRow (host : Host) (i : CreateIntent) (predicateId : String) (value : ScenarioValue) :
    Row where
  asrtId := syntheticId host "scenario_ephemeral_identity_v1" (.obj [
    ("operation", .arr (i.premiseIds.map text)), ("predicate", text predicateId),
    ("entity", text i.entityRef), ("value", text (value.valueDigest host))])
  factTuple := [text i.entityRef, value.toRaw]

/-- The identity rows of an entity that is created. The index has a predicate for each identity
field, and the intent a value. -/
def identityRows (host : Host) (info : EntityTypeInfo) (i : CreateIntent) : List (String × Row) :=
  info.identityFields.filterMap fun f =>
    match Dict.get? info.identityPredicates f.name, Dict.get? i.identityValues f.name with
    | some pred, some value => some (pred.predId, identityRow host i pred.predId value)
    | _, _ => none

/-- `_assert_ephemeral_anchors_present`. -/
def assertEphemeralAnchorsPresent (host : Host) (r : Relation) (info : EntityTypeInfo) :
    Except Fault Unit :=
  let required := info.existsPredicateId :: info.identityPredicates.map (·.2.predId)
  let missing := (required.filter fun p => (r.rows? p).isNone).insertionSort (· ≤ ·)
  demand missing.isEmpty
    s!"ephemeral entity requires existence/identity dependencies: {reprNames host.entity missing}"
    "SCENARIO_EPHEMERAL_DEPENDENCY_UNAVAILABLE"

/-- One turn of the fourth pass: an entity is created. -/
def createEntity (host : Host) (schema : Schema) (s : Progress) (i : CreateIntent) :
    Except Fault Progress := do
  let info ← liftSchema (entityInfo schema.index i.entityType)
  assertEphemeralAnchorsPresent host s.relation info
  let visible ← entityExists host s.relation info i.entityRef
  demand (!visible) s!"ephemeral entity already exists: {i.entityRef}"
    "SCENARIO_EPHEMERAL_ENTITY_ALREADY_EXISTS"
  let created := (info.existsPredicateId, existsRow host i) :: identityRows host info i
  let ids := created.map (·.2.asrtId)
  .ok {
    relation := created.foldl Relation.appendRow s.relation
    resolved := s.resolved ++ [{
      kind := .createEphemeralEntity, entityRef := some i.entityRef, entityType := some i.entityType
      premiseIds := i.premiseIds, originRefs := i.originRefs
      syntheticWitnessIds := canonicalStrings ids }]
    syntheticIds := s.syntheticIds ++ ids }

/-- The row a value of a field is added as. -/
def fieldRow (host : Host) (i : FieldIntent) (value : ScenarioValue) : Row where
  asrtId := syntheticId host "scenario_effective_fact_v1" (.obj [
    ("premise_ids", .arr (i.premiseIds.map text)), ("predicate", text i.info.predId),
    ("entity", text i.entityRef), ("value", text (value.valueDigest host))])
  factTuple := [text i.entityRef, value.toRaw]

/-- Is the first cell of a row the target of an intent? -/
def FieldIntent.targets (i : FieldIntent) (row : Row) : Bool :=
  row.factTuple.head?.any fun d => eqvDatum d (text i.entityRef)

/-- The second of the two cells of a row. -/
def Row.pairValue? (row : Row) : Option Datum :=
  match row.factTuple with
  | [_, value] => some value
  | _ => none

/-- Is a row one of those an intent takes out? -/
def FieldIntent.removes (i : FieldIntent) (row : Row) : Bool :=
  match i.kind with
  | .setEffectiveValue | .setExactMembers | .withoutField => i.targets row
  | .ensureMember => false
  | .withoutValue => i.targets row && row.pairValue?.any fun d =>
      i.values.any fun v => eqvDatum d v.toRaw

/-- The values an intent adds to the rows of its field. -/
def FieldIntent.adds (i : FieldIntent) (rows : List Row) : List ScenarioValue :=
  match i.kind with
  | .setEffectiveValue | .setExactMembers => i.values
  | .ensureMember => i.values.filter fun v =>
      !(rows.filter i.targets).any fun row => row.pairValue?.any fun d => eqvDatum v.toRaw d
  | .withoutField | .withoutValue => []

/-- An entity whose field is changed is created by the scenario or exists. -/
def targetVisible (host : Host) (r : Relation) (ephemeral : List String) (info : EntityTypeInfo)
    (entityRef : String) : Except Fault Bool :=
  if entityRef ∈ ephemeral then .ok true else entityExists host r info entityRef

/-- `_apply_field_intent`: one turn of the last pass. -/
def applyField (host : Host) (schema : Schema) (ephemeral : List String) (s : Progress)
    (i : FieldIntent) : Except Fault Progress := do
  let info ← liftSchema (entityInfo schema.index i.entityType)
  let visible ← targetVisible host s.relation ephemeral info i.entityRef
  demand visible s!"scenario target entity is not visible: {i.entityRef}"
    "SCENARIO_ENTITY_NOT_VISIBLE"
  let p := i.info.predId
  let rows := s.relation.rows p
  let visibleValues := (rows.filter i.targets).filterMap Row.pairValue?
  demand (i.kind ≠ .setEffectiveValue ||
      visibleValues.all fun d => visibleValues.all fun d' => eqvDatum d d')
    s!"single field {p} has conflicting visible values" "SCENARIO_BASELINE_CARDINALITY_CONFLICT"
  let added := (i.adds rows).map (fieldRow host i)
  .ok {
    relation := s.relation.set p (rows.filter (!i.removes ·) ++ added)
    resolved := s.resolved ++ [{
      kind := i.kind.kind, entityRef := some i.entityRef, entityType := some i.entityType
      predicateId := some p, fieldName := some i.fieldName, values := i.values
      premiseIds := i.premiseIds, originRefs := i.originRefs
      maskedWitnessIds := canonicalStrings ((rows.filter i.removes).map (·.asrtId))
      syntheticWitnessIds := canonicalStrings (added.map (·.asrtId)) }]
    syntheticIds := s.syntheticIds ++ added.map (·.asrtId) }

/-- The normalized intents of a scenario, in the order in which they are applied. -/
structure Plan where
  assertions : List AssertionIntent
  entities : List EntityIntent
  relations : List RelationIntent
  creates : List CreateIntent
  fields : List FieldIntent

/-- `_apply_intents`. -/
def applyPlan (host : Host) (schema : Schema) (r : Relation) (plan : Plan) :
    Except Fault Progress := do
  let s ← plan.assertions.foldlM (removeAssertion host schema) { relation := r }
  let s ← plan.entities.foldlM (removeEntity host schema) s
  let s := plan.relations.foldl (applyRelation host) s
  let s ← plan.creates.foldlM (createEntity host schema) s
  let s ← plan.fields.foldlM (applyField host schema (plan.creates.map (·.entityRef))) s
  let frozen ← freezeRelation host s.relation
  .ok { s with relation := frozen }

/-! ## Closure -/

/-- The closure targets of an operation: one turn of `_closure_for_operations`. -/
def closureTargets (host : Host) (o : ResolvedOperation) : Except Fault (List ClosureTarget) :=
  let entityRef := o.entityRef.getD ""
  let predicateId := o.predicateId.getD ""
  match o.kind with
  | .withoutField => .ok [.field entityRef predicateId]
  | .setExactMembers => (ClosureTarget.exactMembers host entityRef predicateId o.values).map ([·])
  | .withoutValue => .ok (o.values.map (.member entityRef predicateId))
  | .withoutRelation => .ok [.relation predicateId]
  | .withoutEntity => .ok [.entity entityRef]
  | .withoutAssertion => .ok [.assertion predicateId (o.assertionId.getD "")]
  | .setEffectiveValue | .ensureMember | .createEphemeralEntity | .ensureRelation => .ok []

/-- `_closure_for_operations`. -/
def closureForOperations (host : Host) (operations : List ResolvedOperation) :
    Except Fault (List ClosureTarget) := do
  let targets ← collect (closureTargets host) operations
  closureScope host targets

/-! ## The resolver -/

/-- One turn of the loop over the operations: the intent, on a predicate of the relation. -/
def resolveOperation (host : Host) (schema : Schema) (r : Relation) (op : Operation) :
    Except Fault Intent := do
  let intent ← intentOf host schema op
  match intent with
  | .relation i => do
      demand (i.info.predId ∈ r.predicates)
        (s!"scenario relation {host.entity.reprText i.info.predId} is outside the supplied " ++
          "dependency relation") "SCENARIO_TARGET_OUTSIDE_DEPENDENCY"
      .ok intent
  | .field i => do
      demand (i.info.predId ∈ r.predicates)
        (s!"scenario field {host.entity.reprText i.info.predId} is outside the supplied " ++
          "dependency relation") "SCENARIO_TARGET_OUTSIDE_DEPENDENCY"
      .ok intent
  | .create _ | .entity _ | .assertion _ => .ok intent

namespace Intent

def field? : Intent → Option FieldIntent
  | .field i => some i
  | _ => none

def relation? : Intent → Option RelationIntent
  | .relation i => some i
  | _ => none

def create? : Intent → Option CreateIntent
  | .create i => some i
  | _ => none

def entity? : Intent → Option EntityIntent
  | .entity i => some i
  | _ => none

def assertion? : Intent → Option AssertionIntent
  | .assertion i => some i
  | _ => none

end Intent

/-- The names in a list that are also in another, as an error names them. -/
def reprOverlap (host : Host) (xs ys : List String) : String :=
  reprNames host.entity (canonicalStrings (xs.filter (· ∈ ys)))

/-- The conflicts of operations on different targets. -/
def requireApart (host : Host) (intents : List Intent) : Except Fault Unit := do
  let created := (intents.filterMap Intent.create?).map (·.entityRef)
  let removed := (intents.filterMap Intent.entity?).map (·.entityRef)
  let changed := (intents.filterMap Intent.field?).map (·.entityRef)
  demandNoConflict (created.all (· ∉ removed))
    s!"create ephemeral conflicts with without entity: {reprOverlap host created removed}"
  demandNoConflict (changed.all (· ∉ removed))
    s!"field operation conflicts with without entity: {reprOverlap host changed removed}"
  demandNoConflict ((intents.filterMap Intent.relation?).all fun i => i.kind ≠ .ensure ||
      i.values.all fun v => v.tag ≠ "entity_ref" || v.toRaw ∉ removed.map text)
    "ensure relation conflicts with without entity"

/-- The groups of a list of intents, sorted by their keys. -/
def sortedGroups {α : Type} (key : α → String) (as : List α) : List (String × List α) :=
  sortOn (·.1) (Buckets.ofList key id as)

/-- The groups of the field intents, sorted by entity and predicate. -/
def fieldGroups (intents : List FieldIntent) : List ((String × String) × List FieldIntent) :=
  (Buckets.ofList (fun i => (i.entityRef, i.info.predId)) id intents).insertionSort fun p q =>
    toLex p.1 ≤ toLex q.1

/-- The intents of a specification, normalized. The lists are in the order `_apply_intents` sorts
them in: the keys of the groups are different, and the intents of one relation are in the order of
their tuples. -/
def normalize (host : Host) (intents : List Intent) : Except Fault Plan := do
  let creates ← mapOk (fun g => mergeCreates g.2)
    (Buckets.ofList (·.entityRef) id (intents.filterMap Intent.create?))
  let fields ← mapOk (fun g => normalizeFieldGroup host g.2)
    (fieldGroups (intents.filterMap Intent.field?))
  let relations ← collect (fun g => normalizeRelationGroup host g.2)
    (sortedGroups (·.info.predId) (intents.filterMap Intent.relation?))
  let entities ← mapOk (fun g => normalizeEntityGroup g.2)
    (sortedGroups (·.entityRef) (intents.filterMap Intent.entity?))
  let assertions := (sortedGroups (·.assertionId) (intents.filterMap Intent.assertion?)).map
    fun g => mergeAssertions g.1 g.2
  .ok {
    assertions
    entities := entities.insertionSort fun i j =>
      toLex (i.entityType, i.entityRef) ≤ toLex (j.entityType, j.entityRef)
    relations
    creates := creates.insertionSort fun i j =>
      toLex (i.entityType, i.entityRef) ≤ toLex (j.entityType, j.entityRef)
    fields }

/-- `ResolvedScenarioV1`, without its digest. -/
structure ResolvedScenario where
  spec : ScenarioSpec
  baselineWorld : World
  effectiveWorld : World

/-- `_sha_token`. -/
def shaToken (value name : String) : Except Fault Unit :=
  demand (isSha256Token value) s!"{name} must be sha256 token" "SCENARIO_DIGEST_INVALID"

/-- `resolve_scenario_v1`. -/
def resolveScenario (host : Host) (schema : Schema) (spec : ScenarioSpec) (baseline : Relation)
    (baseViewDigest admissibilityDigest : String) : Except Fault ResolvedScenario := do
  shaToken baseViewDigest "base_view_digest"
  shaToken admissibilityDigest "admissibility_digest"
  let r ← freezeRelation host baseline
  demand (!r.entries.isEmpty) "baseline relation must be non-empty" "SCENARIO_RELATION_EMPTY"
  each (fun p => (predicateDomains host schema p).map fun _ => ()) r.predicates
  let facts ← typedFacts host schema r []
  let baselineWorld ← effectiveWorld host schema.digest baseViewDigest admissibilityDigest
    r.predicates facts [] []
  let intents ← mapOk (resolveOperation host schema r) spec.operations
  requireApart host intents
  let plan ← normalize host intents
  assertRelationEntitiesVisible host schema r (plan.creates.map (·.entityRef)) plan.relations
  assertRelationCardinality host schema r plan.relations
  let s ← applyPlan host schema r plan
  let closure ← closureForOperations host s.resolved
  let facts ← typedFacts host schema s.relation s.syntheticIds
  let effectiveWorld ← effectiveWorld host schema.digest baseViewDigest admissibilityDigest
    r.predicates facts s.resolved closure
  .ok ⟨spec, baselineWorld, effectiveWorld⟩

end FactGraph.Scenario
