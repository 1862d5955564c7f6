import FactGraph.Query.Meaning

/-!
# What the compiler makes of a query

The clause of an accepted query, written over the variables of its sources (`clause`), and what
acceptance says of the graph and the sources (`Accepted`).
-/

namespace FactGraph.Query

open Entity Check

/-! ## The clause -/

namespace PublishedRelationQuery

variable (q : PublishedRelationQuery) (index : SchemaIndex)

/-- The guards of the nodes of a path. -/
def nodeRows (p : PublishedRelationPath) : List (String × List String) :=
  (p.nodeTypes q.graph).zipIdx.map fun t =>
    (existsPredicateId index t.1, [q.sourceVar (nodeAt p.key t.2)])

/-- The row of a step. -/
def stepRow (p : PublishedRelationPath) (step : RelationPathStep) (i : Nat)
    (relation : PublishedStoredRelation) : String × List String :=
  let link := q.sourceVar (linkAt p.key step i)
  match step.direction with
  | .forward => (relation.predicateId,
      [q.sourceVar (nodeAt p.key i), q.sourceVar (nodeAt p.key (i + 1)), link])
  | .reverse => (relation.predicateId,
      [q.sourceVar (nodeAt p.key (i + 1)), q.sourceVar (nodeAt p.key i), link])

def stepRows (p : PublishedRelationPath) : List (String × List String) :=
  p.steps.zipIdx.filterMap fun s =>
    (q.graph.relationByKey s.1.relationKey).map (q.stepRow p s.1 s.2)

/-- The row of a field. -/
def fieldRow? (s : RelationQuerySource) : Option (String × List String) :=
  match s.kind with
  | .field key => (q.graph.fieldByKey key).map fun f =>
      (f.predicateId, [q.sourceVar (nodeAt s.pathKey s.position), q.sourceVar s])
  | .entity | .relationValue _ => none

end PublishedRelationQuery

/-- The literal of a bound value. -/
def RelationQueryBinding.literal (b : RelationQueryBinding) : Rules.Value :=
  match b.value with
  | .ref r => .str (r.encodedRef.getD "")
  | .scalar v => irValue v

/-- The clause of a query. -/
def PublishedRelationQuery.clause (q : PublishedRelationQuery) (index : SchemaIndex) :
    Rules.FlatClause where
  rows := q.usedPaths.flatMap (fun p => q.nodeRows index p ++ q.stepRows p) ++
    q.fieldSources.filterMap q.fieldRow?
  tests := q.bindings.map fun b => ⟨b.operator, q.sourceVar b.source, b.literal⟩

/-! ## Acceptance -/

/-- The predicate of a published member, as the document has it. -/
structure Declares (doc : SchemaDoc) (predicateId : String) (p : PredicateDoc) : Prop where
  mem : p ∈ doc.predicates
  id : p.predId = predicateId
  raw : rawPredicate doc predicateId = some p

/-- A binding the compiler takes, to a source of the type domain. -/
def RelationQueryBinding.Fits (b : RelationQueryBinding) (domain : String) : Prop :=
  match b.value with
  | .ref r => domain = "entity_ref" ∧ isOrder b.operator = false ∧ ∃ e, r.encodedRef = some e
  | .scalar _ => domain ≠ "entity_ref" ∧
      (isOrder b.operator = true → domain ∈ ["int", "float64", "time"])

/-- What acceptance says of a query. -/
structure Accepted (doc : SchemaDoc) (index : SchemaIndex) (q : PublishedRelationQuery) : Prop where
  paths : ∀ key ∈ q.usedPathKeys, ∃ p, q.graph.pathByKey key = some p
  nodes : ∀ p ∈ q.usedPaths, ∀ t ∈ p.nodeTypes q.graph, Dict.has index.entities t = true
  steps : ∀ p ∈ q.usedPaths, ∀ step ∈ p.steps, ∃ relation,
    q.graph.relationByKey step.relationKey = some relation
  relations : ∀ key relation, q.graph.relationByKey key = some relation →
    ∃ p, Declares doc relation.predicateId p ∧ p.argSpecs.length = 3 ∧
      p.argSpecs[2]?.map (·.typeDomain) = some relation.valueType
  fields : ∀ key f, q.graph.fieldByKey key = some f →
    ∃ p, Declares doc f.predicateId p ∧ p.argSpecs[1]?.map (·.typeDomain) = some f.valueType
  sources : ∀ s ∈ q.allSources, s ∈ q.slots
  published : ∀ s ∈ q.fieldSources, ∃ key f, s.kind = .field key ∧
    q.graph.fieldByKey key = some f ∧ ∃ p ∈ q.usedPaths, p.key = s.pathKey ∧
      s.position < p.steps.length + 1
  bindings : ∀ b ∈ q.bindings, b.Fits (q.graph.valueTypeOf b.source)

/-! ## Admission -/

variable {host : Host} {doc : SchemaDoc} {index : SchemaIndex} {q : PublishedRelationQuery}
variable {g : PublishedRelationGraph}

theorem fieldByKey_ok {key : String} {f : PublishedEntityField} (h : g.fieldByKey key = some f) :
    f ∈ g.fields ∧ f.key = key :=
  ⟨List.mem_of_find?_eq_some h, by simpa using List.find?_some h⟩

theorem pathByKey_ok {key : String} {p : PublishedRelationPath} (h : g.pathByKey key = some p) :
    p ∈ g.paths ∧ p.key = key :=
  ⟨List.mem_of_find?_eq_some h, by simpa using List.find?_some h⟩

/-- The context of a used path. -/
def PublishedRelationQuery.context (q : PublishedRelationQuery) (p : PublishedRelationPath) :
    PathContext := ⟨p, p.nodeTypes q.graph, q.usedPathKeys.idxOf p.key⟩

theorem mem_usedPathKeys {key : String} :
    key ∈ q.usedPathKeys ↔ ∃ s ∈ q.allSources, s.pathKey = key := by
  unfold PublishedRelationQuery.usedPathKeys
  rw [List.mem_insertionSort, List.mem_dedup, List.mem_map]

theorem mem_usedPaths {p : PublishedRelationPath} :
    p ∈ q.usedPaths ↔ p.key ∈ q.usedPathKeys ∧ q.graph.pathByKey p.key = some p := by
  unfold PublishedRelationQuery.usedPaths
  rw [List.mem_filterMap]
  constructor
  · intro h
    obtain ⟨key, hkey, hp⟩ := h
    rw [(pathByKey_ok hp).2]
    exact ⟨hkey, hp⟩
  · intro h
    exact ⟨p.key, h.1, h.2⟩

/-- What a resolved source is. -/
structure Resolved (q : PublishedRelationQuery) (p : PublishedRelationPath)
    (s : RelationQuerySource) (r : ResolvedSource) : Prop where
  varName : r.varName = q.sourceVar s
  valueType : r.valueType = q.graph.valueTypeOf s
  slot : s.isField = false → s ∈ p.sources
  field : ∀ key, s.kind = .field key → ∃ f, q.graph.fieldByKey key = some f ∧
    r.predicateId = some f.predicateId ∧ s.position < p.steps.length + 1

theorem nodeTypes_length (p : PublishedRelationPath) (g : PublishedRelationGraph) :
    (p.nodeTypes g).length = p.steps.length + 1 := by
  simp [PublishedRelationPath.nodeTypes]

theorem nodeAt_mem_sources {p : PublishedRelationPath} {i : Nat} (h : i < p.steps.length + 1) :
    nodeAt p.key i ∈ p.sources :=
  List.mem_append_left _ (List.mem_map_of_mem (List.mem_range.mpr h))

theorem linkAt_mem_sources {p : PublishedRelationPath} {i : Nat} {step : RelationPathStep}
    (h : p.steps[i]? = some step) : linkAt p.key step i ∈ p.sources := by
  apply List.mem_append_right
  rw [List.mem_map]
  exact ⟨(step, i), List.mem_zipIdx_iff_getElem?.mpr h, rfl⟩

theorem mem_fieldSources {s : RelationQuerySource} :
    s ∈ q.fieldSources ↔ s ∈ q.allSources ∧ s.isField = true := by
  unfold PublishedRelationQuery.fieldSources
  rw [List.mem_insertionSort, List.mem_dedup, List.mem_filter]

end FactGraph.Query
