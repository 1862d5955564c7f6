import FactGraph.Query.Compiled
import FactGraph.Rules.Sources
import FactGraph.Schema.Conservative

/-!
# Relation queries are exact

The clause of an accepted query, read over its sources, is the query (`solves_iff`), and the rows of
a view are the values the store holds (`storedView`, `nodeView`). So the execution of a query whose
bound values pass returns the selections of its solutions (`exact_of_plain`).

The evaluator knows cells and the query speaks of typed values. Between the two stands the coding of a
slot: where a binding names a slot, its cells decide the values, since the claims carry the declared
domain; where none does, it is enough that the cells of the slot are of one kind, for the rows to be
sorted, and that no two values share one, for no two rows to become one.
-/

namespace FactGraph.Query

open Protocol Entity Check Store

/-! ## The clause over sources -/

section Atoms

variable (host : View.Host) (r : View.LedgerReads) (doc : SchemaDoc) (index : SchemaIndex)
variable (q : PublishedRelationQuery)

/-- A node exists. -/
def nodeAtom (pathKey : String) (t : String × Nat) :
    Rules.SourceAtom RelationQuerySource TypedValue :=
  ⟨existsPredicateId index t.1, [nodeAt pathKey t.2],
    fun us => ∃ e, us = [.entityRef e] ∧ NodeExists host r doc t.1 e⟩

/-- The store holds what a predicate is about. -/
def storedAtom (predicateId : String) (sources : List RelationQuerySource) :
    Rules.SourceAtom RelationQuerySource TypedValue :=
  ⟨predicateId, sources, fun us => ∃ e vs, us = .entityRef e :: vs ∧ Holds r doc predicateId e vs⟩

/-- The sources of a step, in the order of the columns of its relation. -/
def stepSources (p : PublishedRelationPath) (step : RelationPathStep) (i : Nat) :
    List RelationQuerySource :=
  match step.direction with
  | .forward => [nodeAt p.key i, nodeAt p.key (i + 1), linkAt p.key step i]
  | .reverse => [nodeAt p.key (i + 1), nodeAt p.key i, linkAt p.key step i]

def pathAtoms (p : PublishedRelationPath) : List (Rules.SourceAtom RelationQuerySource TypedValue) :=
  (p.nodeTypes q.graph).zipIdx.map (nodeAtom host r doc index p.key) ++
    p.steps.zipIdx.filterMap fun s => (q.graph.relationByKey s.1.relationKey).map fun relation =>
      storedAtom r doc relation.predicateId (stepSources p s.1 s.2)

def fieldAtom? (s : RelationQuerySource) :
    Option (Rules.SourceAtom RelationQuerySource TypedValue) :=
  match s.kind with
  | .field key => (q.graph.fieldByKey key).map fun f =>
      storedAtom r doc f.predicateId [nodeAt s.pathKey s.position, s]
  | .entity | .relationValue _ => none

/-- The query, read over its sources. -/
def sourceClause : Rules.SourceClause RelationQuerySource TypedValue where
  slots := q.slots
  atoms := q.usedPaths.flatMap (pathAtoms host r doc index q) ++
    q.fieldSources.filterMap (fieldAtom? r doc q)
  tests := q.bindings.map fun b =>
    ⟨b.operator, b.source, b.literal, fun t => Compares b.operator t (b.bound? q.graph)⟩

end Atoms

variable {host : View.Host} {r : View.LedgerReads} {doc : SchemaDoc} {index : SchemaIndex}
variable {q : PublishedRelationQuery} {α : Assignment}

variable {l : Ledger} {views : List (String × List View.Fact)}

/-- The atoms of a query, by what they are about. -/
inductive IsAtom (host : View.Host) (r : View.LedgerReads) (doc : SchemaDoc) (index : SchemaIndex)
    (q : PublishedRelationQuery) : Rules.SourceAtom RelationQuerySource TypedValue → Prop
  | node {p i t} (hp : p ∈ q.usedPaths) (ht : (p.nodeTypes q.graph)[i]? = some t) :
      IsAtom host r doc index q (nodeAtom host r doc index p.key (t, i))
  | step {p i step relation} (hp : p ∈ q.usedPaths) (hstep : p.steps[i]? = some step)
      (hrelation : q.graph.relationByKey step.relationKey = some relation) :
      IsAtom host r doc index q (storedAtom r doc relation.predicateId (stepSources p step i))
  | field {s key f} (hs : s ∈ q.fieldSources) (hkind : s.kind = .field key)
      (hf : q.graph.fieldByKey key = some f) :
      IsAtom host r doc index q
        (storedAtom r doc f.predicateId [nodeAt s.pathKey s.position, s])

theorem mem_atoms {a : Rules.SourceAtom RelationQuerySource TypedValue} :
    a ∈ (sourceClause host r doc index q).atoms ↔ IsAtom host r doc index q a := by
  unfold sourceClause pathAtoms
  dsimp only
  rw [List.mem_append, List.mem_flatMap, List.mem_filterMap]
  constructor
  · intro h
    rcases h with ⟨p, hp, ha⟩ | ⟨s, hs, ha⟩
    · rcases List.mem_append.mp ha with ha | ha
      · obtain ⟨⟨t, i⟩, ht, rfl⟩ := List.mem_map.mp ha
        exact .node hp (List.mem_zipIdx_iff_getElem?.mp ht)
      · obtain ⟨⟨step, i⟩, hstep, ha⟩ := List.mem_filterMap.mp ha
        obtain ⟨relation, hrelation, rfl⟩ := Option.map_eq_some_iff.mp ha
        exact .step hp (List.mem_zipIdx_iff_getElem?.mp hstep) hrelation
    · unfold fieldAtom? at ha
      split at ha
      next key hkind =>
        obtain ⟨f, hf, rfl⟩ := Option.map_eq_some_iff.mp ha
        exact .field hs hkind hf
      next => cases ha
      next => cases ha
  · intro h
    cases h with
    | @node p i t hp ht =>
      refine .inl ⟨p, hp, List.mem_append_left _ (List.mem_map.mpr ⟨(t, i), ?_, rfl⟩)⟩
      exact List.mem_zipIdx_iff_getElem?.mpr ht
    | @step p i step relation hp hstep hrelation =>
      refine .inl ⟨p, hp, List.mem_append_right _ (List.mem_filterMap.mpr ⟨(step, i), ?_, ?_⟩)⟩
      · exact List.mem_zipIdx_iff_getElem?.mpr hstep
      · rw [hrelation]
        rfl
    | @field s key f hs hkind hf =>
      refine .inr ⟨s, hs, ?_⟩
      unfold fieldAtom?
      rw [hkind]
      dsimp only
      rw [hf]
      rfl

/-- The sources of a query, by what they are. -/
theorem mem_slots {s : RelationQuerySource} :
    s ∈ q.slots ↔ (∃ p ∈ q.usedPaths, ∃ i < p.steps.length + 1, s = nodeAt p.key i) ∨
      (∃ p ∈ q.usedPaths, ∃ i step, p.steps[i]? = some step ∧ s = linkAt p.key step i) ∨
      s ∈ q.fieldSources := by
  unfold PublishedRelationQuery.slots PublishedRelationPath.sources
  rw [List.mem_append, List.mem_flatMap, ← or_assoc]
  apply or_congr_left
  constructor
  · intro h
    obtain ⟨p, hp, h⟩ := h
    rcases List.mem_append.mp h with h | h
    · obtain ⟨i, hi, rfl⟩ := List.mem_map.mp h
      exact .inl ⟨p, hp, i, List.mem_range.mp hi, rfl⟩
    · obtain ⟨⟨step, i⟩, hstep, rfl⟩ := List.mem_map.mp h
      exact .inr ⟨p, hp, i, step, List.mem_zipIdx_iff_getElem?.mp hstep, rfl⟩
  · intro h
    rcases h with ⟨p, hp, i, hi, rfl⟩ | ⟨p, hp, i, step, hstep, rfl⟩
    · exact ⟨p, hp, nodeAt_mem_sources hi⟩
    · exact ⟨p, hp, linkAt_mem_sources hstep⟩

/-- Every source stands in an atom, and an atom has sources only. -/
theorem covered (hacc : Accepted doc index q) (s : RelationQuerySource) :
    s ∈ q.slots ↔ ∃ a ∈ (sourceClause host r doc index q).atoms, s ∈ a.sources := by
  have hnode : ∀ p ∈ q.usedPaths, ∀ i < p.steps.length + 1,
      ∃ a ∈ (sourceClause host r doc index q).atoms, nodeAt p.key i ∈ a.sources := by
    intro p hp i hi
    rw [← nodeTypes_length p q.graph] at hi
    exact ⟨_, mem_atoms.mpr (.node hp (List.getElem?_eq_getElem hi)), List.mem_singleton.mpr rfl⟩
  rw [mem_slots]
  constructor
  · intro h
    rcases h with ⟨p, hp, i, hi, rfl⟩ | ⟨p, hp, i, step, hstep, rfl⟩ | hs
    · exact hnode p hp i hi
    · obtain ⟨relation, hrelation⟩ := hacc.steps p hp step (List.mem_of_getElem? hstep)
      refine ⟨_, mem_atoms.mpr (.step hp hstep hrelation), ?_⟩
      show _ ∈ stepSources p step i
      unfold stepSources
      cases step.direction <;> simp
    · obtain ⟨key, f, hkind, hf, _⟩ := hacc.published s hs
      exact ⟨_, mem_atoms.mpr (.field hs hkind hf), by simp [storedAtom]⟩
  · intro h
    obtain ⟨a, ha, hs⟩ := h
    cases mem_atoms.mp ha with
    | @node p i t hp ht =>
      obtain rfl := List.mem_singleton.mp hs
      have hlt := (List.getElem?_eq_some_iff.mp ht).1
      rw [nodeTypes_length] at hlt
      exact .inl ⟨p, hp, i, hlt, rfl⟩
    | @step p i step relation hp hstep hrelation =>
      have hlt := (List.getElem?_eq_some_iff.mp hstep).1
      have hs : s = nodeAt p.key i ∨ s = nodeAt p.key (i + 1) ∨ s = linkAt p.key step i := by
        change s ∈ stepSources p step i at hs
        unfold stepSources at hs
        cases hd : step.direction <;> rw [hd] at hs <;> simp at hs <;> tauto
      rcases hs with rfl | rfl | rfl
      · exact .inl ⟨p, hp, i, by omega, rfl⟩
      · exact .inl ⟨p, hp, i + 1, by omega, rfl⟩
      · exact .inr (.inl ⟨p, hp, i, step, hstep, rfl⟩)
    | @field s' key f hs' hkind hf =>
      rcases List.mem_cons.mp hs with rfl | hs
      · obtain ⟨_, _, _, _, p, hp, hkey, hlt⟩ := hacc.published s' hs'
        exact .inl ⟨p, hp, s'.position, hlt, by rw [hkey]⟩
      · obtain rfl := List.mem_singleton.mp hs
        exact .inr (.inr hs')

/-- **Every source has a variable of its own.** -/
theorem distinct (hacc : Accepted doc index q) {s s' : RelationQuerySource} (hs : s ∈ q.slots)
    (hs' : s' ∈ q.slots) (h : q.sourceVar s = q.sourceVar s') : s = s' := by
  have hused : ∀ {s}, s ∈ q.slots → s.pathKey ∈ q.usedPathKeys := by
    intro s hs
    rcases mem_slots.mp hs with ⟨p, hp, _, _, rfl⟩ | ⟨p, hp, _, _, _, rfl⟩ | hfield
    · exact (mem_usedPaths.mp hp).1
    · exact (mem_usedPaths.mp hp).1
    · exact mem_usedPathKeys.mpr ⟨s, (mem_fieldSources.mp hfield).1, rfl⟩
  -- a name tells the path of a source, then its shape, and within a shape the index of a key
  obtain ⟨hpath, hshape⟩ := VarShape.name_injective h
  have hkey : s.pathKey = s'.pathKey := (List.idxOf_inj (hused hs)).mp hpath
  have hfield : ∀ {s}, s ∈ q.slots → ∀ key, s.kind = .field key →
      key ∈ q.graph.fields.map (·.key) := by
    intro s hs key hkind
    rcases mem_slots.mp hs with ⟨_, _, _, _, rfl⟩ | ⟨_, _, _, _, _, rfl⟩ | hmem
    · cases hkind
    · cases hkind
    · obtain ⟨key', f, hkind', hf, _⟩ := hacc.published s hmem
      rw [hkind] at hkind'
      cases hkind'
      obtain ⟨hmemF, hkeyF⟩ := fieldByKey_ok hf
      exact hkeyF ▸ List.mem_map_of_mem hmemF
  have hlink : ∀ {s}, s ∈ q.slots → ∀ key, s.kind = .relationValue key → ∃ p ∈ q.usedPaths,
      p.key = s.pathKey ∧ (p.steps[s.position]?).map (·.relationKey) = some key := by
    intro s hs key hkind
    rcases mem_slots.mp hs with ⟨_, _, _, _, rfl⟩ | ⟨p, hp, i, step, hstep, rfl⟩ | hmem
    · cases hkind
    · cases hkind
      exact ⟨p, hp, rfl, by rw [show (linkAt p.key step i).position = i from rfl, hstep]; rfl⟩
    · obtain ⟨key', f, hkind', _⟩ := hacc.published s hmem
      rw [hkind] at hkind'
      cases hkind'
  obtain ⟨kind, pathKey, position⟩ := s
  obtain ⟨kind', pathKey', position'⟩ := s'
  dsimp only at hkey
  subst hkey
  unfold PublishedRelationGraph.varShape at hshape
  cases kind with
  | entity =>
    cases kind' <;> cases hshape
    rfl
  | field key =>
    cases kind' with
    | field key' =>
      rw [VarShape.field.injEq] at hshape
      rw [stableMemberIndex_injective (hfield hs key rfl) hshape.1]
      dsimp only at hshape
      rw [hshape.2]
    | entity | relationValue _ => cases hshape
  | relationValue key =>
    cases kind' with
    | relationValue key' =>
      rw [VarShape.link.injEq] at hshape
      dsimp only at hshape
      subst hshape
      obtain ⟨p, hp, hpk, hstep⟩ := hlink hs key rfl
      obtain ⟨p', hp', hpk', hstep'⟩ := hlink hs' key' rfl
      dsimp only at hpk hpk' hstep hstep'
      -- a link is told by its position, so the two steps have to be one
      have hsame : p = p' := by
        have h₁ := (mem_usedPaths.mp hp).2
        have h₂ := (mem_usedPaths.mp hp').2
        rw [hpk] at h₁
        rw [hpk', h₁] at h₂
        exact Option.some.inj h₂
      subst hsame
      rw [hstep] at hstep'
      cases hstep'
      rfl
    | entity | field _ => cases hshape

/-! ## The domains of the values -/

/-- The values a source takes in the store. -/
def PublishedRelationQuery.Takes (q : PublishedRelationQuery) (doc : SchemaDoc) (l : Ledger)
    (s : RelationQuerySource) (v : TypedValue) : Prop :=
  match s.kind with
  | .entity => v.domain = "entity_ref"
  | .field key => ∃ f p, q.graph.fieldByKey key = some f ∧ rawPredicate doc f.predicateId = some p ∧
      LastValue l p v
  | .relationValue key => ∃ relation p, q.graph.relationByKey key = some relation ∧
      rawPredicate doc relation.predicateId = some p ∧ LastValue l p v

/-- What is known of the values of a source. -/
structure PublishedRelationQuery.Told (q : PublishedRelationQuery) (s : RelationQuerySource)
    (takes : TypedValue → Prop) : Prop where
  kind : ∃ k : Rules.Kind, (∀ v, takes v → k.Holds v.cell) ∧
    (s ∈ q.bindings.map (·.source) → k = kindOf (q.graph.valueTypeOf s))
  apart : ∀ v w, takes v → takes w → v.cell = w.cell → v = w
  domain : s ∈ q.bindings.map (·.source) → ∀ v, takes v → v.domain = q.graph.valueTypeOf s

theorem Told.congr {s : RelationQuerySource} {takes takes' : TypedValue → Prop}
    (h : q.Told s takes) (hsub : ∀ v, takes' v → takes v) : q.Told s takes' := by
  obtain ⟨k, hk, hkind⟩ := h.kind
  exact ⟨⟨k, fun v hv => hk v (hsub v hv), hkind⟩,
    fun v w hv hw => h.apart v w (hsub v hv) (hsub w hw), fun hs v hv => h.domain hs v (hsub v hv)⟩

variable {floats : Rules.FloatOps} {gate : Bool}

/-- **The execution is exact**: it returns the selections of the solutions of the query, one row for
each, unless there are more of them than its row limit. -/
def Exact (host : Host) (floats : Rules.FloatOps) (gate : Bool) (doc : SchemaDoc) (l : Ledger)
    (q : PublishedRelationQuery) (inv : SealedInvocation) : Prop :=
  ∃ as : List Assignment, as.Nodup ∧
    (∀ α, α ∈ as ↔ Solves host.view (View.reads l) doc q α) ∧
    executePublishedRelationQuery host floats gate doc l inv =
      if as.length ≤ q.rowLimit then .ok (as.map q.rowOf)
      else .error (.relationQuery "RELATION_QUERY_ROW_LIMIT_EXCEEDED"
        "relation query result exceeds its published row limit" "query_execute" [])

end FactGraph.Query
