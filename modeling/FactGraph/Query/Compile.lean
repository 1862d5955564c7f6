import FactGraph.Entity.Index
import FactGraph.Rules.Eval

/-!
# Published relation queries

`application/protocol/relation_query.py` and the compiler in
`application/relation_query_runtime.py`: a server publishes the fields, the stored relations and the
paths that may be queried, and a query over them is compiled to a where clause.

What the constructors of the protocol check is carried by the types: a source has a member exactly
if its kind has one, and a graph and a query have the fields that say what is unique and not empty.
The digests are left out, but not what their JSON refuses.
-/

namespace FactGraph.Query

open Protocol Entity Check

/-! ## The published graph -/

/-- `RelationQueryNodeKind`. -/
inductive NodeKind where
  | storedField | storedRelation | rule | provider | scenario
  deriving DecidableEq

def NodeKind.name : NodeKind → String
  | .storedField => "stored_field" | .storedRelation => "stored_relation" | .rule => "rule"
  | .provider => "provider" | .scenario => "scenario"

/-- `PublishedEntityFieldV1`. -/
structure PublishedEntityField where
  key : String
  predicateId : String
  entityType : String
  valueType : String
  cardinality : String
  nodeKind : NodeKind := .storedField

/-- `PublishedStoredRelationV1`. -/
structure PublishedStoredRelation where
  key : String
  predicateId : String
  fromEntityType : String
  toEntityType : String
  valueType : String
  cardinality : String
  nodeKind : NodeKind := .storedRelation

inductive Direction where
  | forward | reverse
  deriving DecidableEq

/-- `RelationPathStepV1`. -/
structure RelationPathStep where
  relationKey : String
  direction : Direction := .forward

/-- `PublishedRelationPathV1`. -/
structure PublishedRelationPath where
  key : String
  rootEntityType : String
  steps : List RelationPathStep
  short : steps.length ≤ 32

/-- `PublishedRelationGraphV1`. -/
structure PublishedRelationGraph where
  fields : List PublishedEntityField
  relations : List PublishedStoredRelation
  paths : List PublishedRelationPath
  fieldKeys : (fields.map (·.key)).Nodup
  relationKeys : (relations.map (·.key)).Nodup
  pathKeys : (paths.map (·.key)).Nodup

namespace PublishedRelationGraph

/-- `field_by_key`. -/
def fieldByKey (g : PublishedRelationGraph) (key : String) : Option PublishedEntityField :=
  g.fields.find? fun f => f.key = key

/-- `relation_by_key`. -/
def relationByKey (g : PublishedRelationGraph) (key : String) : Option PublishedStoredRelation :=
  g.relations.find? fun r => r.key = key

/-- `path_by_key`. -/
def pathByKey (g : PublishedRelationGraph) (key : String) : Option PublishedRelationPath :=
  g.paths.find? fun p => p.key = key

/-- `_stable_member_index`, for the key of a published field. -/
def stableMemberIndex (g : PublishedRelationGraph) (key : String) : Nat :=
  ((g.fields.map (·.key)).insertionSort (· ≤ ·)).idxOf key

end PublishedRelationGraph

/-! ## Queries -/

/-- The kind of a source with its `member_key`. -/
inductive SourceKind where
  | entity
  | field (memberKey : String)
  | relationValue (memberKey : String)
  deriving DecidableEq

def SourceKind.name : SourceKind → String
  | .entity => "entity" | .field _ => "field" | .relationValue _ => "relation_value"

/-- `source.member_key or ""`. -/
def SourceKind.memberKey : SourceKind → String
  | .entity => "" | .field key | .relationValue key => key

/-- `RelationQuerySourceV1`. -/
structure RelationQuerySource where
  kind : SourceKind
  pathKey : String
  position : Nat
  deriving DecidableEq

/-- `RelationQueryValue`. -/
inductive RelationQueryValue where
  | ref (ref : EntityRef)
  | scalar (value : Scalar)

/-- `RelationQueryBindingV1`. -/
structure RelationQueryBinding where
  source : RelationQuerySource
  value : RelationQueryValue
  operator : Rules.CmpOp := .eq

/-- `RelationQuerySelectionV1`. -/
structure RelationQuerySelection where
  aliasName : String
  source : RelationQuerySource

/-- `PublishedRelationQueryV1`. -/
structure PublishedRelationQuery where
  graph : PublishedRelationGraph
  bindings : List RelationQueryBinding
  selections : List RelationQuerySelection
  rowLimit : Nat
  selects : selections ≠ []
  limited : 1 ≤ rowLimit ∧ rowLimit ≤ 100000
  aliases : (selections.map (·.aliasName)).Nodup
  sources : (bindings.map (·.source)).Nodup

/-- `all_sources`. -/
def PublishedRelationQuery.allSources (q : PublishedRelationQuery) : List RelationQuerySource :=
  q.bindings.map (·.source) ++ q.selections.map (·.source)

/-- `sorted({source.path_key for source in all_sources})`. -/
def PublishedRelationQuery.usedPathKeys (q : PublishedRelationQuery) : List String :=
  (q.allSources.map (·.pathKey)).dedup.insertionSort (· ≤ ·)

/-! ## Errors -/

/-- `RelationQueryError` without its details, or what a callee raises. -/
inductive QueryFault where
  | relationQuery (code message stage : String) (path : List String)
  | entity (fault : Fault)
  | projection (e : StoreErr)
  | rules (e : Rules.Err)
  | valueError (message : String)

/-- `_error`. -/
def queryError (code message : String) (path : List String) : QueryFault :=
  .relationQuery code message "query_compile" path

/-- `_source_error`. -/
def sourceError (source : RelationQuerySource) (message : String) : QueryFault :=
  queryError "INVALID_RELATION_QUERY_SOURCE" message
    ["source", source.pathKey, toString source.position, source.kind.name]

/-- The raw predicate of an id. -/
def rawPredicate (doc : SchemaDoc) (predicateId : String) : Option PredicateDoc :=
  doc.predicates.find? fun p => p.predId = predicateId

/-- The entity types a step leads from and to. -/
def PublishedStoredRelation.ends (r : PublishedStoredRelation) : Direction → String × String
  | .forward => (r.fromEntityType, r.toEntityType)
  | .reverse => (r.toEntityType, r.fromEntityType)

/-- `_PathContext`. -/
structure PathContext where
  path : PublishedRelationPath
  nodeTypes : List String
  pathIndex : Nat

def PathContext.nodeVar (c : PathContext) (i : Nat) : String := s!"$rq_p{c.pathIndex}_n{i}"

def PathContext.relationValueVar (c : PathContext) (i : Nat) : String :=
  s!"$rq_p{c.pathIndex}_r{i}"

def PathContext.fieldVar (c : PathContext) (member position : Nat) : String :=
  s!"$rq_p{c.pathIndex}_f{member}_n{position}"

/-- An element of the where clause, as a raw tuple. -/
inductive RawAtom where
  | pred (predicateId : String) (terms : List String)
  | cmp (op : Rules.CmpOp) (varName : String) (value : Rules.Value)

/-- `schema_index.entities[node_type].exists_predicate_id`; the type of a node is in the schema. -/
def existsPredicateId (index : SchemaIndex) (entityType : String) : String :=
  ((Dict.get? index.entities entityType).map (·.existsPredicateId)).getD ""

/-- The row of a step: a step against its relation has the ends swapped. -/
def PathContext.stepRow (c : PathContext) (relation : PublishedStoredRelation)
    (direction : Direction) (i : Nat) : String × List String :=
  match direction with
  | .forward => (relation.predicateId, [c.nodeVar i, c.nodeVar (i + 1), c.relationValueVar i])
  | .reverse => (relation.predicateId, [c.nodeVar (i + 1), c.nodeVar i, c.relationValueVar i])

/-- The rows of the steps of a path; the relation of every step is published. -/
def PathContext.stepRows (c : PathContext) (g : PublishedRelationGraph) :
    List (String × List String) :=
  c.path.steps.zipIdx.filterMap fun p =>
    (g.relationByKey p.1.relationKey).map fun relation => c.stepRow relation p.1.direction p.2

/-- `_ResolvedSource`. -/
structure ResolvedSource where
  varName : String
  valueType : String
  entityType : Option String
  predicateId : Option String

/-- `_resolve_source`. The variable of a field that `field_vars` has is the one computed here. -/
def resolveSource (g : PublishedRelationGraph) (c : PathContext) (source : RelationQuerySource) :
    Except QueryFault ResolvedSource :=
  match source.kind with
  | .entity =>
      match c.nodeTypes[source.position]? with
      | none => .error (sourceError source "entity position is outside the published path")
      | some entityType => .ok ⟨c.nodeVar source.position, "entity_ref", some entityType, none⟩
  | .field memberKey =>
      match c.nodeTypes[source.position]? with
      | none => .error (sourceError source "field position is outside the published path")
      | some entityType =>
          match g.fieldByKey memberKey with
          | none => .error (sourceError source "field source references an unpublished field")
          | some f => do
              require (f.entityType = entityType)
                (sourceError source "field source entity type does not match its path node")
              .ok ⟨c.fieldVar (g.stableMemberIndex f.key) source.position, f.valueType, none,
                some f.predicateId⟩
  | .relationValue memberKey =>
      match c.path.steps[source.position]? with
      | none => .error (sourceError source "relation position is outside the published path")
      | some step => do
          require (memberKey = step.relationKey) (sourceError source
            "relation source does not name the relation at its path position")
          match g.relationByKey memberKey with
          | none =>
              .error (sourceError source "relation source references an unpublished relation")
          | some relation =>
              .ok ⟨c.relationValueVar source.position, relation.valueType, none,
                some relation.predicateId⟩

/-- `contexts[source.path_key]`; every path of a source has a context. -/
def contextOf (contexts : List (String × PathContext)) (source : RelationQuerySource) :
    Except QueryFault PathContext :=
  match Dict.get? contexts source.pathKey with
  | some c => .ok c
  | none => .error (.valueError source.pathKey)

/-- `_source_key`. -/
def sourceKey (s : RelationQuerySource) : String ×ₗ Nat ×ₗ String ×ₗ String :=
  toLex (s.pathKey, toLex (s.position, toLex (s.kind.name, s.kind.memberKey)))

def RelationQuerySource.isField (s : RelationQuerySource) : Bool :=
  match s.kind with
  | .field _ => true
  | .entity | .relationValue _ => false

/-- The field sources of a query, each once, in the order of their keys. -/
def PublishedRelationQuery.fieldSources (q : PublishedRelationQuery) : List RelationQuerySource :=
  ((q.allSources.filter (·.isField)).dedup).insertionSort fun s t => sourceKey s ≤ sourceKey t

/-- The row of a field source. -/
def fieldRow (g : PublishedRelationGraph) (contexts : List (String × PathContext))
    (source : RelationQuerySource) : Except QueryFault (String × List String) := do
  let c ← contextOf contexts source
  let resolved ← resolveSource g c source
  .ok (resolved.predicateId.getD "", [c.nodeVar source.position, resolved.varName])

/-! ## Bindings -/

/-- A bound scalar as it stands in the clause. -/
def irValue : Scalar → Rules.Value
  | .none => .none
  | .bool b => .bool b
  | .int i => .int i
  | .float x => .float x.toRat
  | .str s => .str s
  | .bytes b => .bytes b

/-- `binding.operator in {"gt", "ge", "lt", "le"}`. -/
def isOrder : Rules.CmpOp → Bool
  | .gt | .ge | .lt | .le => true
  | .eq | .ne => false

/-- `_normalize_binding`. -/
def normalizeBinding (host : Host) (index : SchemaIndex) (b : RelationQueryBinding)
    (resolved : ResolvedSource) : Except QueryFault Rules.Value :=
  if resolved.valueType = "entity_ref" then do
    require (!isOrder b.operator)
      (sourceError b.source "entity bindings only support equality comparisons")
    match b.value with
    | .ref ⟨entityType, _, some encoded⟩ => do
        require (some entityType = resolved.entityType ∧ Dict.has index.entities entityType)
          (sourceError b.source "entity binding type does not match its path node")
        .ok (.str encoded)
    | _ => .error (sourceError b.source "entity binding requires a resolved EntityRef")
  else
    match b.value with
    | .ref _ => .error (sourceError b.source "scalar binding cannot contain EntityRef")
    | .scalar value => do
        require (!isOrder b.operator || resolved.valueType ∈ ["int", "float64", "time"])
          (sourceError b.source "ordering comparison requires int, float64, or time")
        match resolved.predicateId.bind (Dict.get? index.predicatesById) with
        | none => .error (.valueError (resolved.predicateId.getD ""))
        | some predicate =>
            match validateFieldValue host (.scalar (.leaf value)) predicate with
            | .ok () => .ok (irValue value)
            | .error (.entityWrite _) => .error (queryError "RELATION_QUERY_BINDING_TYPE_MISMATCH"
                "relation query binding does not match its published type"
                ["bindings", b.source.pathKey])
            | .error fault => .error (.entity fault)

/-- `ResolvedRelationQuerySelectionV1`, with the variable that is selected. -/
structure ResolvedSelection where
  aliasName : String
  valueType : String
  entityType : Option String
  varName : String

/-- `SealedRelationQueryInvocationV1`. -/
structure SealedInvocation where
  rowLimit : Nat
  dependencyPredicateIds : List String
  domainGuardPredicateIds : List String
  selections : List ResolvedSelection
  whereIr : List RawAtom

/-- A selection, resolved. -/
def resolveSelection (g : PublishedRelationGraph) (contexts : List (String × PathContext))
    (s : RelationQuerySelection) : Except QueryFault ResolvedSelection := do
  let c ← contextOf contexts s.source
  let resolved ← resolveSource g c s.source
  .ok ⟨s.aliasName, resolved.valueType, resolved.entityType, resolved.varName⟩

/-- `tuple(sorted(set(ids)))`. -/
def sortedIds (ids : List String) : List String := ids.dedup.insertionSort (· ≤ ·)

/-- `_parse_term`, on a string or a bound value. -/
def parseTerm (v : Rules.Value) : Rules.Term :=
  match v with
  | .str s => if Rules.isVarName s then .var s else .const v
  | _ => .const v

/-- An element of the clause, as the evaluator reads it. -/
def RawAtom.parse : RawAtom → Rules.Atom
  | .pred predicateId terms => .pred predicateId (terms.map fun s => parseTerm (.str s))
  | .cmp op varName value => .cmp op (parseTerm (.str varName)) (parseTerm value)

/-- A row of a result: the cell of every alias. -/
abbrev Row := List (String × Option Rules.Value)

/-- `execute_published_relation_query`, on the ledger of a store whose schema is `doc`. -/
def executePublishedRelationQuery (host : Host) (floats : Rules.FloatOps) (gate : Bool)
    (doc : SchemaDoc) (l : Store.Ledger) (inv : SealedInvocation) : Except QueryFault (List Row) :=
  match View.projectViewFacts host.view (View.reads l) doc.view with
  | .error e => .error (.projection e)
  | .ok views =>
      match Rules.evaluateWhere ⟨Dict.get? views, floats, gate⟩
          (.and (inv.whereIr.map RawAtom.parse)) with
      | .error e => .error (.rules e)
      | .ok bindings => do
          require (bindings.length ≤ inv.rowLimit) (.relationQuery
            "RELATION_QUERY_ROW_LIMIT_EXCEEDED"
            "relation query result exceeds its published row limit" "query_execute" [])
          .ok (bindings.map fun env => inv.selections.map fun s =>
            (s.aliasName, Dict.get? env s.varName))

end FactGraph.Query
