import FactGraph.Lib.FreshNames
import FactGraph.Query.Typed
import FactGraph.View.Facts

/-!
# What a relation query means

The reading the compiler is held to, stated on the claims of a store. A query asks for the
assignments of values to its sources, that is, to the nodes and the relation values of the paths it
uses and to the fields it uses: every node is an entity that exists, every step is a stored relation
in its direction, every field holds its value, and every binding compares as values do.
-/

namespace FactGraph.Query

open Protocol Entity Check

/-! ## Sources -/

/-- The source that is a node of a path. -/
def nodeAt (pathKey : String) (i : Nat) : RelationQuerySource := ⟨.entity, pathKey, i⟩

/-- The source that is the value of a step. -/
def linkAt (pathKey : String) (step : RelationPathStep) (i : Nat) : RelationQuerySource :=
  ⟨.relationValue step.relationKey, pathKey, i⟩

/-- The type of the node a step leads to. -/
def PublishedRelationGraph.stepTarget (g : PublishedRelationGraph) (step : RelationPathStep) :
    String :=
  ((g.relationByKey step.relationKey).map fun r => (r.ends step.direction).2).getD ""

def PublishedRelationPath.nodeTypes (p : PublishedRelationPath) (g : PublishedRelationGraph) :
    List String := p.rootEntityType :: p.steps.map g.stepTarget

/-- The nodes and the relation values of a path. -/
def PublishedRelationPath.sources (p : PublishedRelationPath) : List RelationQuerySource :=
  (List.range (p.steps.length + 1)).map (nodeAt p.key) ++
    p.steps.zipIdx.map fun s => linkAt p.key s.1 s.2

/-- The type domain of a source. -/
def PublishedRelationGraph.valueTypeOf (g : PublishedRelationGraph) (s : RelationQuerySource) :
    String :=
  match s.kind with
  | .entity => "entity_ref"
  | .field key => ((g.fieldByKey key).map (·.valueType)).getD ""
  | .relationValue key => ((g.relationByKey key).map (·.valueType)).getD ""

namespace PublishedRelationQuery

def usedPaths (q : PublishedRelationQuery) : List PublishedRelationPath :=
  q.usedPathKeys.filterMap q.graph.pathByKey

/-- The sources an assignment gives a value. -/
def slots (q : PublishedRelationQuery) : List RelationQuerySource :=
  q.usedPaths.flatMap (·.sources) ++ q.fieldSources

end PublishedRelationQuery

/-! ## The store -/

/-- An entity of the type exists. -/
def NodeExists (host : View.Host) (r : View.LedgerReads) (doc : SchemaDoc)
    (entityType ref : String) : Prop :=
  ∃ e ∈ doc.entities, e.entityType = entityType ∧
    ∃ predId rows, View.entityRows host r doc.view.ownerIndex (some e.view) =
      .ok (some (predId, rows)) ∧ ([.str ref] : View.Fact) ∈ rows.map Prod.fst

/-- The store holds the values for the entity: there is a claim with them among those of the
predicate that are active and, if it is single-valued, chosen. -/
def Holds (r : View.LedgerReads) (doc : SchemaDoc) (predicateId ref : String)
    (vs : List TypedValue) : Prop :=
  ∃ p selected, rawPredicate doc predicateId = some p ∧
    View.selectActive r p.view predicateId = .ok selected ∧
    ∃ c ∈ selected, c.eRef = ref ∧ c.restTerms.map termValue? = vs.map some

/-! ## Assignments -/

/-- The values of the sources of a query. -/
abbrev Assignment := RelationQuerySource → Option TypedValue

/-- The value a binding asks for, none if it has none in the domain of its source. -/
def RelationQueryBinding.bound? (b : RelationQueryBinding) (g : PublishedRelationGraph) :
    Option TypedValue :=
  match b.value with
  | .ref r => r.encodedRef.map .entityRef
  | .scalar v => typed? (g.valueTypeOf b.source) v

/-- **An assignment solves the query.** -/
structure Solves (host : View.Host) (r : View.LedgerReads) (doc : SchemaDoc)
    (q : PublishedRelationQuery) (α : Assignment) : Prop where
  domain : ∀ s, (α s).isSome ↔ s ∈ q.slots
  nodes : ∀ p ∈ q.usedPaths, ∀ i entityType, (p.nodeTypes q.graph)[i]? = some entityType →
    ∃ e, α (nodeAt p.key i) = some (.entityRef e) ∧ NodeExists host r doc entityType e
  steps : ∀ p ∈ q.usedPaths, ∀ i step, p.steps[i]? = some step →
    ∀ relation, q.graph.relationByKey step.relationKey = some relation →
    ∃ a b v, α (nodeAt p.key i) = some (.entityRef a) ∧
      α (nodeAt p.key (i + 1)) = some (.entityRef b) ∧ α (linkAt p.key step i) = some v ∧
      match step.direction with
      | .forward => Holds r doc relation.predicateId a [.entityRef b, v]
      | .reverse => Holds r doc relation.predicateId b [.entityRef a, v]
  fields : ∀ s ∈ q.fieldSources, ∀ key f, s.kind = .field key →
    q.graph.fieldByKey key = some f →
    ∃ e v, α (nodeAt s.pathKey s.position) = some (.entityRef e) ∧ α s = some v ∧
      Holds r doc f.predicateId e [v]
  bindings : ∀ b ∈ q.bindings, ∃ t, α b.source = some t ∧
    Compares b.operator t (b.bound? q.graph)

/-- What a query selects of an assignment. -/
def PublishedRelationQuery.rowOf (q : PublishedRelationQuery) (α : Assignment) : Row :=
  q.selections.map fun s => (s.aliasName, (α s.source).map (·.cell))

/-! ## Where the compiled query is right -/

/-- The literal of a bound value stands for the value. -/
def RelationQueryBinding.Passes (b : RelationQueryBinding) (g : PublishedRelationGraph) : Prop :=
  match b.value with
  | .ref r => ∀ e, r.encodedRef = some e → (Rules.Value.str e).isLiteral = true
  | .scalar v => Query.Passes (g.valueTypeOf b.source) b.operator v

/-- The active claims of a predicate have the terms that it declares. -/
def ClaimsTyped (l : Store.Ledger) (p : PredicateDoc) : Prop :=
  ∀ c ∈ View.activeOf l p.predId, c.restTerms.map Prod.fst = (p.argSpecs.map (·.typeDomain)).tail

/-- A value that an active claim has in the last column of a predicate. -/
def LastValue (l : Store.Ledger) (p : PredicateDoc) (v : TypedValue) : Prop :=
  ∃ c ∈ View.activeOf l p.predId, c.restTerms.getLast?.bind termValue? = some v

/-- The active claims of a predicate have terms of any domain in its last column, but the cells of
these are of one kind and tell them apart. -/
structure ClaimsTold (l : Store.Ledger) (p : PredicateDoc) : Prop where
  columns : ∀ c ∈ View.activeOf l p.predId, ∃ domain,
    c.restTerms.map Prod.fst = (p.argSpecs.map (·.typeDomain)).tail.dropLast ++ [domain]
  kind : ∃ k : Rules.Kind, ∀ v, LastValue l p v → k.Holds v.cell
  apart : ∀ v w, LastValue l p v → LastValue l p w → v.cell = w.cell → v = w

/-- A source is fed by a predicate: the claims have the terms it declares, which nothing depends on
where no binding compares the source. -/
def PublishedRelationQuery.FedBy (q : PublishedRelationQuery) (l : Store.Ledger)
    (s : RelationQuerySource) (p : PredicateDoc) : Prop :=
  ClaimsTyped l p ∨ s ∉ q.bindings.map (·.source) ∧ ClaimsTold l p

/-- **The bound values pass, and the predicates that the query reads are stored, have the columns
their published members have, and feed the sources.** -/
structure Plain (doc : SchemaDoc) (l : Store.Ledger) (q : PublishedRelationQuery) : Prop where
  bindings : ∀ b ∈ q.bindings, b.Passes q.graph
  fields : ∀ s ∈ q.fieldSources, ∀ key f p, s.kind = .field key →
    q.graph.fieldByKey key = some f → rawPredicate doc f.predicateId = some p →
    p.isEntityExists = false ∧ p.argSpecs.length = 2 ∧ q.FedBy l s p
  relations : ∀ path ∈ q.usedPaths, ∀ i step, path.steps[i]? = some step → ∀ relation p,
    q.graph.relationByKey step.relationKey = some relation →
    rawPredicate doc relation.predicateId = some p →
    p.isEntityExists = false ∧ p.argSpecs[1]?.map (·.typeDomain) = some "entity_ref" ∧
      q.FedBy l (linkAt path.key step i) p

/-!
## The variables of a compiled query

Every source of a query has a variable of its own (`VarShape.name_injective`), spelled with the position of
its path among the used ones, with its own position, and for a field with the position of its key.
-/

open FreshNames (digits_injective)

/-! ## Digits -/

/-- A number ends where an underscore stands. -/
theorem digits_underscore_injective {a b : Nat} {xs ys : List Char}
    (h : Nat.toDigits 10 a ++ '_' :: xs = Nat.toDigits 10 b ++ '_' :: ys) : a = b ∧ xs = ys := by
  have hsplit : ∀ (ds es : List Char), '_' ∉ ds → '_' ∉ es → ds ++ '_' :: xs = es ++ '_' :: ys →
      ds = es ∧ xs = ys := by
    intro ds
    induction ds with
    | nil =>
      intro es _ hes heq
      cases es with
      | nil => exact ⟨rfl, (List.cons.inj heq).2⟩
      | cons e es =>
        have he : '_' = e := (List.cons.inj heq).1
        exact absurd (he ▸ List.mem_cons_self) hes
    | cons d ds ih =>
      intro es hds hes heq
      cases es with
      | nil =>
        have hd : d = '_' := (List.cons.inj heq).1
        exact absurd (hd ▸ List.mem_cons_self) hds
      | cons e es =>
        obtain ⟨rfl, htail⟩ := List.cons.inj heq
        obtain ⟨rfl, hrest⟩ := ih es (fun hm => hds (List.mem_cons_of_mem _ hm))
          (fun hm => hes (List.mem_cons_of_mem _ hm)) htail
        exact ⟨rfl, hrest⟩
  obtain ⟨hd, hrest⟩ := hsplit _ _ Nat.underscore_not_in_toDigits Nat.underscore_not_in_toDigits h
  exact ⟨digits_injective hd, hrest⟩

/-! ## Variables -/

/-- The variables a path context names. -/
inductive VarShape where
  | node (i : Nat)
  | link (i : Nat)
  | field (member i : Nat)
  deriving DecidableEq

/-- What stands behind the number of the path. -/
def VarShape.suffix : VarShape → List Char
  | node i => 'n' :: Nat.toDigits 10 i
  | link i => 'r' :: Nat.toDigits 10 i
  | field member i => 'f' :: (Nat.toDigits 10 member ++ '_' :: 'n' :: Nat.toDigits 10 i)

theorem VarShape.suffix_injective : Function.Injective VarShape.suffix := by
  intro s t h
  cases s <;> cases t <;> simp only [VarShape.suffix, List.cons.injEq] at h
  case node.node => rw [digits_injective h.2]
  case link.link => rw [digits_injective h.2]
  case field.field =>
    obtain ⟨rfl, hrest⟩ := digits_underscore_injective h.2
    rw [digits_injective (List.cons.inj hrest).2]
  all_goals exact absurd h.1 (by decide)

/-- The variable of a shape, on the path of a number. -/
def VarShape.name (p : Nat) : VarShape → String
  | node i => s!"$rq_p{p}_n{i}"
  | link i => s!"$rq_p{p}_r{i}"
  | field member i => s!"$rq_p{p}_f{member}_n{i}"

theorem VarShape.name_toList (p : Nat) (s : VarShape) :
    (s.name p).toList = "$rq_p".toList ++ (Nat.toDigits 10 p ++ '_' :: s.suffix) := by
  have hlit : ∀ s : String, (toString s).toList = s.toList := fun _ => rfl
  cases s <;> simp [VarShape.name, VarShape.suffix, String.toList_append, hlit]

theorem VarShape.name_injective {p p' : Nat} {s s' : VarShape} (h : s.name p = s'.name p') :
    p = p' ∧ s = s' := by
  have hlist := congrArg String.toList h
  rw [VarShape.name_toList, VarShape.name_toList, List.append_cancel_left_eq] at hlist
  obtain ⟨hp, hs⟩ := digits_underscore_injective hlist
  exact ⟨hp, VarShape.suffix_injective hs⟩

/-- The shape of the variable of a source. -/
def PublishedRelationGraph.varShape (g : PublishedRelationGraph) (s : RelationQuerySource) :
    VarShape :=
  match s.kind with
  | .entity => .node s.position
  | .relationValue _ => .link s.position
  | .field key => .field (g.stableMemberIndex key) s.position

/-- The variable of a source. -/
def PublishedRelationQuery.sourceVar (q : PublishedRelationQuery) (s : RelationQuerySource) :
    String :=
  (q.graph.varShape s).name (q.usedPathKeys.idxOf s.pathKey)

/-- A published member is told by its position. -/
theorem stableMemberIndex_injective {g : PublishedRelationGraph} {key key' : String}
    (hkey : key ∈ g.fields.map (·.key)) (h : g.stableMemberIndex key = g.stableMemberIndex key') :
    key = key' := by
  unfold PublishedRelationGraph.stableMemberIndex at h
  exact List.idxOf_inj (List.mem_insertionSort _ |>.mpr hkey) |>.mp h

end FactGraph.Query
