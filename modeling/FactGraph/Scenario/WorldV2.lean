import FactGraph.Scenario.MetaV2
import FactGraph.Scenario.Typing

/-!
# Effective worlds and their digests

`EffectiveWorldV2` of `application/protocol/scenario_v2.py`: the facts a scenario is evaluated on,
with where each comes from and what was done to get there.

Two digests are taken of a world. `semantic_world_digest` is of the schema, the predicates and the set
of facts as an evaluator sees them; `resolution_evidence_digest` is of that digest and of everything
else. So worlds that mean the same have one semantic digest, however they came about
(`semanticWorldDigest_eq`), and with a digest that has no collisions the semantic digest tells the
meaning and the resolution digest the world.
-/

namespace FactGraph.Scenario.V2

open Protocol Store Check

variable {rt : Runtime}

/-! ## Operations -/

/-- `ScenarioOperationMetaBindingV2`. -/
structure OperationMetaBinding (rt : Runtime) where
  premiseId : String
  sourceOperationDigest : String
  scenarioMeta : ScenarioMeta rt
  memberValueDigest : Option String

namespace OperationMetaBinding

/-- `ScenarioOperationMetaBindingV2.__post_init__`. -/
def make (premiseId sourceOperationDigest : String) (scenarioMeta : ScenarioMeta rt)
    (memberValueDigest : Option String) : Except Fault (OperationMetaBinding rt) := do
  requireNonEmptyStr premiseId "ScenarioOperationMetaBindingV2.premise_id"
  require (decide (IsSha256Token sourceOperationDigest)) (.protocolShape
    "ScenarioOperationMetaBindingV2.source_operation_digest must be sha256 token")
  require (decide (∀ d ∈ memberValueDigest, IsSha256Token d)) (.protocolShape
    "ScenarioOperationMetaBindingV2.member_value_digest must be sha256 token")
  .ok ⟨premiseId, sourceOperationDigest, scenarioMeta, memberValueDigest⟩

/-- `binding_digest`. -/
def bindingDigest (b : OperationMetaBinding rt) : String :=
  token rt "scenario_operation_meta_binding_v2" (.obj [
    ("premise_id", jsonStr b.premiseId),
    ("source_operation_digest", jsonStr b.sourceOperationDigest),
    ("meta_semantics_digest", jsonStr b.scenarioMeta.semanticsDigest),
    ("meta_evidence_digest", jsonStr b.scenarioMeta.evidenceDigest),
    ("member_value_digest", jsonOptional b.memberValueDigest)])

end OperationMetaBinding

/-- `ResolvedScenarioOperationEvidenceV2`. -/
structure OperationEvidence (rt : Runtime) where
  kind : Kind
  resolvedOperationDigest : String
  metadataBindings : List (OperationMetaBinding rt)
  maskedWitnessIds : List String
  syntheticWitnessIds : List String

/-- Ids without repetition, in order; none of them is empty. -/
def canonicalIds (fieldName : String) (ids : List String) : Except Fault (List String) := do
  let canonical := canonicalStrings ids
  each (fun p => requireNonEmptyStr p.1 s!"{fieldName}[{p.2}]") canonical.zipIdx
  .ok canonical

namespace OperationEvidence

/-- `ResolvedScenarioOperationEvidenceV2.__post_init__`. -/
def make (kind : Kind) (resolvedOperationDigest : String)
    (metadataBindings : List (OperationMetaBinding rt))
    (maskedWitnessIds syntheticWitnessIds : List String) : Except Fault (OperationEvidence rt) := do
  require (decide (IsSha256Token resolvedOperationDigest)) (.protocolShape
    "ResolvedScenarioOperationEvidenceV2.resolved_operation_digest must be sha256 token")
  require (!metadataBindings.isEmpty) (.protocolShape
    "ResolvedScenarioOperationEvidenceV2.metadata_bindings must be non-empty binding tuple")
  require (decide (metadataBindings.map (·.bindingDigest)).Nodup) (.protocolShape
    "ResolvedScenarioOperationEvidenceV2 metadata bindings must be unique")
  let masked ← canonicalIds "ResolvedScenarioOperationEvidenceV2.masked_witness_ids" maskedWitnessIds
  let synthetic ← canonicalIds "ResolvedScenarioOperationEvidenceV2.synthetic_witness_ids"
    syntheticWitnessIds
  .ok ⟨kind, resolvedOperationDigest, sortOn (·.bindingDigest) metadataBindings, masked, synthetic⟩

/-- `operation_evidence_digest`. -/
def operationEvidenceDigest (o : OperationEvidence rt) : String :=
  token rt "resolved_scenario_operation_evidence_v2" (.obj [
    ("kind", jsonStr o.kind.word),
    ("resolved_operation_digest", jsonStr o.resolvedOperationDigest),
    ("metadata_bindings", jsonStrings (o.metadataBindings.map (·.bindingDigest))),
    ("masked_witness_ids", jsonStrings o.maskedWitnessIds),
    ("synthetic_witness_ids", jsonStrings o.syntheticWitnessIds)])

end OperationEvidence

/-! ## Facts -/

/-- `ScenarioFactOriginV2`. -/
inductive FactOrigin where
  | baselineSupport | scenarioSynthetic
  deriving DecidableEq

def FactOrigin.word : FactOrigin → String
  | .baselineSupport => "baseline_support"
  | .scenarioSynthetic => "scenario_synthetic"

/-- A value in a text. What is stored is a string, an integer or a truth value. -/
def jsonValue : Rules.Value → Json
  | .bool b => .leaf (.bool b)
  | .int i => jsonInt i
  | .str s => jsonStr s
  | _ => jsonNull

/-- `(value.tag, value.value)`. -/
def jsonPair (v : ScenarioValue) : Json := .arr [jsonStr v.tag, jsonValue v.value]

/-- `EffectiveWorldFactV2`. -/
structure Fact (rt : Runtime) where
  predicateId : String
  witnessId : String
  values : List ScenarioValue
  origin : FactOrigin
  factSemantics : Option (FactSemantics rt.toHost)
  provenance : List ProvenanceRef
  display : Display
  premiseIds : List String
  scenarioOperationDigests : List String

/-- What an evaluator sees of a fact: the predicate, the values and the semantics. -/
structure Meaning (rt : Runtime) where
  predicateId : String
  values : List ScenarioValue
  factSemantics : Option (FactSemantics rt.toHost)

namespace Fact

def meaning (f : Fact rt) : Meaning rt := ⟨f.predicateId, f.values, f.factSemantics⟩

/-- `EffectiveWorldFactV2.__post_init__`. -/
def make (predicateId witnessId : String) (values : List ScenarioValue) (origin : FactOrigin)
    (factSemantics : Option (FactSemantics rt.toHost)) (provenance : List ProvenanceRef)
    (display : Display) (premiseIds scenarioOperationDigests : List String) :
    Except Fault (Fact rt) := do
  requireNonEmptyStr predicateId "EffectiveWorldFactV2.predicate_id"
  requireNonEmptyStr witnessId "EffectiveWorldFactV2.witness_id"
  require (!values.isEmpty)
    (.protocolShape "EffectiveWorldFactV2.values must be ScenarioValueV1 tuple")
  let provenance ← canonicalProvenanceRefsV1 rt "EffectiveWorldFactV2.provenance" provenance
  let premiseIds ← canonicalIds "EffectiveWorldFactV2.premise_ids" premiseIds
  let operationDigests := canonicalStrings scenarioOperationDigests
  each (fun p => require (decide (IsSha256Token p.1)) (.protocolShape
    s!"EffectiveWorldFactV2.scenario_operation_digests[{p.2}] must be sha256 token"))
    operationDigests.zipIdx
  match origin with
  | .scenarioSynthetic =>
      require (!premiseIds.isEmpty && !operationDigests.isEmpty) (.protocolShape
        "scenario synthetic fact requires premise ids and operation digests")
  | .baselineSupport =>
      require (premiseIds.isEmpty && operationDigests.isEmpty) (.protocolShape
        "baseline support fact cannot carry Scenario operation linkage")
  .ok ⟨predicateId, witnessId, values, origin, factSemantics, provenance, display, premiseIds,
    operationDigests⟩

/-- `semantic_fact_digest`. -/
def semanticFactDigest (f : Fact rt) : String :=
  token rt "effective_world_fact_v2_semantics" (.obj [
    ("predicate_id", jsonStr f.predicateId),
    ("values", .arr (f.values.map jsonPair)),
    ("fact_semantics", jsonOptional (f.factSemantics.map (·.semanticsDigest rt)))])

/-- `evidence_fact_digest`. -/
def evidenceFactDigest (f : Fact rt) : String :=
  token rt "effective_world_fact_v2_evidence" (.obj [
    ("semantic_fact_digest", jsonStr f.semanticFactDigest),
    ("witness_id", jsonStr f.witnessId),
    ("origin", jsonStr f.origin.word),
    ("provenance", jsonStrings (f.provenance.map (·.referenceDigest rt))),
    ("display_digest", jsonStr (f.display.displayDigest rt)),
    ("premise_ids", jsonStrings f.premiseIds),
    ("scenario_operation_digests", jsonStrings f.scenarioOperationDigests)])

/-- `tuple_identity`. -/
def tupleIdentity (f : Fact rt) : String × List (String × Rules.Value) :=
  (f.predicateId, f.values.map fun v => (v.tag, v.value))

end Fact

/-! ## Worlds -/

/-- `EffectiveWorldV2`. The predicates are in canonical order, and the facts are among them. -/
structure EffectiveWorld (rt : Runtime) where
  schemaDigest : String
  baseViewDigest : String
  admissibilityDigest : String
  dependencyPredicateIds : List String
  facts : List (Fact rt)
  closureTargetDigests : List String
  operationEvidence : List (OperationEvidence rt)
  canonical : canonicalStrings dependencyPredicateIds = dependencyPredicateIds

namespace EffectiveWorld

/-- `EffectiveWorldV2.__post_init__`. -/
def make (schemaDigest baseViewDigest admissibilityDigest : String)
    (dependencyPredicateIds : List String) (facts : List (Fact rt))
    (closureTargetDigests : List String) (operationEvidence : List (OperationEvidence rt)) :
    Except Fault (EffectiveWorld rt) := do
  each (fun p => require (decide (IsSha256Token p.2))
      (.protocolShape s!"EffectiveWorldV2.{p.1} must be sha256 token"))
    [("schema_digest", schemaDigest), ("base_view_digest", baseViewDigest),
      ("admissibility_digest", admissibilityDigest)]
  require (!dependencyPredicateIds.isEmpty) (.protocolShape
    "EffectiveWorldV2.dependency_predicate_ids must be non-empty tuple")
  let predicates := canonicalStrings dependencyPredicateIds
  each (fun p => requireNonEmptyStr p.1 s!"EffectiveWorldV2.dependency_predicate_ids[{p.2}]")
    predicates.zipIdx
  require (facts.all (·.predicateId ∈ predicates)) (.protocolShape
    "EffectiveWorldV2 facts are outside dependency predicate inventory")
  require (decide (facts.map (·.witnessId)).Nodup)
    (.protocolShape "EffectiveWorldV2 witness ids must be unique")
  require (facts.all fun f => facts.all fun g => decide (f.tupleIdentity = g.tupleIdentity →
      f.factSemantics.map (·.semanticsDigest rt) = g.factSemantics.map (·.semanticsDigest rt)))
    (.protocolShape "same effective tuple has conflicting fact semantics")
  require (decide ((facts.filter (·.origin = .scenarioSynthetic)).map (·.tupleIdentity)).Nodup)
    (.protocolShape "duplicate synthetic effective tuple must be merged before world construction")
  let closures := closureTargetDigests.insertionSort (· ≤ ·)
  require (decide closures.Nodup)
    (.protocolShape "EffectiveWorldV2 closure target digests must be unique")
  each (fun p => require (decide (IsSha256Token p.1)) (.protocolShape
    s!"EffectiveWorldV2.closure_target_digests[{p.2}] must be sha256 token")) closures.zipIdx
  require (decide (operationEvidence.map (·.operationEvidenceDigest)).Nodup)
    (.protocolShape "EffectiveWorldV2 operation evidence must be unique")
  .ok { schemaDigest, baseViewDigest, admissibilityDigest
        dependencyPredicateIds := predicates
        facts := sortOn (·.evidenceFactDigest) facts
        closureTargetDigests := closures
        operationEvidence := sortOn (·.operationEvidenceDigest) operationEvidence
        canonical := canonicalStrings_idem dependencyPredicateIds }

/-- `semantic_relation_digest`. -/
def semanticRelationDigest (w : EffectiveWorld rt) : String :=
  token rt "effective_world_v2_semantic_relation"
    (jsonStrings (canonicalStrings (w.facts.map (·.semanticFactDigest))))

/-- `resolution_relation_digest`. -/
def resolutionRelationDigest (w : EffectiveWorld rt) : String :=
  token rt "effective_world_v2_resolution_relation" (jsonStrings (w.facts.map (·.evidenceFactDigest)))

/-- `semantic_world_digest`. -/
def semanticWorldDigest (w : EffectiveWorld rt) : String :=
  token rt "effective_world_v2_semantic_world" (.obj [
    ("schema_digest", jsonStr w.schemaDigest),
    ("dependency_predicate_ids", jsonStrings w.dependencyPredicateIds),
    ("semantic_relation_digest", jsonStr w.semanticRelationDigest)])

/-- `resolution_evidence_digest`. -/
def resolutionEvidenceDigest (w : EffectiveWorld rt) : String :=
  token rt "effective_world_v2_resolution_evidence" (.obj [
    ("semantic_world_digest", jsonStr w.semanticWorldDigest),
    ("base_view_digest", jsonStr w.baseViewDigest),
    ("admissibility_digest", jsonStr w.admissibilityDigest),
    ("resolution_relation_digest", jsonStr w.resolutionRelationDigest),
    ("closure_target_digests", jsonStrings w.closureTargetDigests),
    ("operation_evidence", jsonStrings (w.operationEvidence.map (·.operationEvidenceDigest)))])

/-- `world_digest`. -/
def worldDigest (w : EffectiveWorld rt) : String :=
  token rt "effective_world_v2" (.obj [
    ("semantic_world_digest", jsonStr w.semanticWorldDigest),
    ("resolution_evidence_digest", jsonStr w.resolutionEvidenceDigest)])

/-- Worlds an evaluator cannot tell apart: of one schema, with the same predicates and the same set of
facts. -/
structure SameMeaning (w w' : EffectiveWorld rt) : Prop where
  schema : w.schemaDigest = w'.schemaDigest
  predicates : ∀ p, p ∈ w.dependencyPredicateIds ↔ p ∈ w'.dependencyPredicateIds
  facts : ∀ m, (∃ f ∈ w.facts, f.meaning = m) ↔ ∃ f ∈ w'.facts, f.meaning = m

end EffectiveWorld

/-! ## What the digests tell -/

theorem canon_jsonValue (v : Rules.Value) : canon (jsonValue v) = jsonValue v := by
  cases v <;> rfl

/-- What is stored is told by its text: it is a string, an integer or a truth value. -/
theorem jsonPair_inj {v w : ScenarioValue} (h : canon (jsonPair v) = canon (jsonPair w)) : v = w := by
  unfold jsonPair at h
  simp only [canon_arr, List.map_cons, canon_jsonStr, canon_jsonValue, Doc.arr.injEq,
    List.cons.injEq, jsonStr_inj] at h
  obtain ⟨htag, hvalue, -⟩ := h
  have hcell := v.cell_toRaw
  have hcell' := w.cell_toRaw
  have hstored : v.value = w.value := by
    generalize v.toRaw = d, v.value = atom at hcell hvalue
    generalize w.toRaw = d', w.value = atom' at hcell' hvalue
    cases hcell <;> cases hcell'
    all_goals simp_all [jsonValue, jsonStr, jsonInt]
  obtain ⟨tag, value, _⟩ := v
  obtain ⟨tag', value', _⟩ := w
  cases htag
  cases hstored
  rfl

theorem jsonPairs_inj {vs ws : List ScenarioValue}
    (h : (vs.map jsonPair).map canon = (ws.map jsonPair).map canon) : vs = ws := by
  rw [List.map_map, List.map_map] at h
  exact List.map_injective_iff.mpr (fun _ _ => jsonPair_inj) h

theorem Kind.word_inj {k k' : Kind} (h : k.word = k'.word) : k = k' := by
  cases k <;> cases k' <;> first | rfl | exact absurd h (by decide)

theorem FactOrigin.word_inj {o o' : FactOrigin} (h : o.word = o'.word) : o = o' := by
  cases o <;> cases o' <;> first | rfl | exact absurd h (by decide)

/-- The digest of a fact depends on its meaning only. -/
theorem Fact.semanticFactDigest_eq {f g : Fact rt} (h : f.meaning = g.meaning) :
    f.semanticFactDigest = g.semanticFactDigest := by
  unfold meaning at h
  rw [Meaning.mk.injEq] at h
  obtain ⟨hpredicate, hvalues, hsemantics⟩ := h
  unfold semanticFactDigest
  rw [hpredicate, hvalues, hsemantics]

/-- **Worlds that mean the same have one semantic digest**, whatever their witnesses, provenance,
display and order of facts. -/
theorem EffectiveWorld.semanticWorldDigest_eq {w w' : EffectiveWorld rt} (h : w.SameMeaning w') :
    w.semanticWorldDigest = w'.semanticWorldDigest := by
  have hpredicates : w.dependencyPredicateIds = w'.dependencyPredicateIds := by
    rw [← w.canonical, ← w'.canonical]
    exact canonicalStrings_congr h.predicates
  have hrelation : w.semanticRelationDigest = w'.semanticRelationDigest := by
    unfold semanticRelationDigest
    congr 2
    apply canonicalStrings_congr
    have hsub {u u' : EffectiveWorld rt}
        (hfacts : ∀ m, (∃ f ∈ u.facts, f.meaning = m) → ∃ f ∈ u'.facts, f.meaning = m) (d : String)
        (hd : d ∈ u.facts.map (·.semanticFactDigest)) : d ∈ u'.facts.map (·.semanticFactDigest) := by
      obtain ⟨f, hf, rfl⟩ := List.mem_map.mp hd
      obtain ⟨g, hg, hmeaning⟩ := hfacts f.meaning ⟨f, hf, rfl⟩
      exact List.mem_map.mpr ⟨g, hg, Fact.semanticFactDigest_eq hmeaning⟩
    intro d
    exact ⟨hsub (fun m => (h.facts m).mp) d, hsub (fun m => (h.facts m).mpr) d⟩
  unfold semanticWorldDigest
  rw [h.schema, hpredicates, hrelation]

section

variable (hsha : Function.Injective rt.sha256)
include hsha

theorem OperationMetaBinding.bindingDigest_inj {b b' : OperationMetaBinding rt}
    (h : b.bindingDigest = b'.bindingDigest) : b = b' := by
  unfold bindingDigest at h
  have hfields := token_obj_inj hsha h (by simp) (by simp)
  simp only [List.map_cons, canon_jsonStr, canon_jsonOptional, jsonStr_inj, jsonOptional_inj,
    List.cons.injEq] at hfields
  obtain ⟨hpremise, hsource, hsemantics, hevidence, hmember, -⟩ := hfields
  obtain ⟨p, s, m, v⟩ := b
  obtain ⟨p', s', m', v'⟩ := b'
  obtain rfl := ScenarioMeta.digests_inj hsha hsemantics hevidence
  cases hpremise
  cases hsource
  cases hmember
  rfl

theorem OperationEvidence.operationEvidenceDigest_inj {o o' : OperationEvidence rt}
    (h : o.operationEvidenceDigest = o'.operationEvidenceDigest) : o = o' := by
  unfold operationEvidenceDigest at h
  have hfields := token_obj_inj hsha h (by simp) (by simp)
  simp only [List.map_cons, canon_jsonStr, canon_jsonStrings, jsonStr_inj, jsonStrings_inj,
    List.cons.injEq] at hfields
  obtain ⟨hkind, hresolved, hbindings, hmasked, hsynthetic, -⟩ := hfields
  obtain ⟨k, r, b, m, s⟩ := o
  obtain ⟨k', r', b', m', s'⟩ := o'
  obtain rfl := Kind.word_inj hkind
  obtain rfl : b = b' :=
    List.map_injective_iff.mpr (fun _ _ => OperationMetaBinding.bindingDigest_inj hsha) hbindings
  cases hresolved
  cases hmasked
  cases hsynthetic
  rfl

theorem Fact.meaning_eq {f g : Fact rt} (h : f.semanticFactDigest = g.semanticFactDigest) :
    f.meaning = g.meaning := by
  unfold semanticFactDigest at h
  have hfields := token_obj_inj hsha h (by simp) (by simp)
  simp only [List.map_cons, canon_jsonStr, canon_jsonOptional, canon_arr, jsonStr_inj,
    jsonOptional_inj, Doc.arr.injEq, List.cons.injEq] at hfields
  obtain ⟨hpredicate, hvalues, hsemantics, -⟩ := hfields
  unfold meaning
  rw [hpredicate, jsonPairs_inj hvalues, semanticsDigests_inj hsha hsemantics]

theorem Fact.evidenceFactDigest_inj {f g : Fact rt} (h : f.evidenceFactDigest = g.evidenceFactDigest) :
    f = g := by
  unfold evidenceFactDigest at h
  have hfields := token_obj_inj hsha h (by simp) (by simp)
  simp only [List.map_cons, canon_jsonStr, canon_jsonStrings, jsonStr_inj, jsonStrings_inj,
    List.cons.injEq] at hfields
  obtain ⟨hmeaning, hwitness, horigin, hprovenance, hdisplay, hpremises, hoperations, -⟩ := hfields
  have hsame := Fact.meaning_eq hsha hmeaning
  obtain ⟨p, w, v, o, s, r, d, i, q⟩ := f
  obtain ⟨p', w', v', o', s', r', d', i', q'⟩ := g
  obtain rfl := FactOrigin.word_inj horigin
  obtain rfl := referenceDigests_inj hsha hprovenance
  obtain rfl := Display.displayDigest_inj hsha hdisplay
  cases hsame
  cases hwitness
  cases hpremises
  cases hoperations
  rfl

/-- The semantic digest tells the meaning. -/
theorem EffectiveWorld.sameMeaning {w w' : EffectiveWorld rt}
    (h : w.semanticWorldDigest = w'.semanticWorldDigest) : w.SameMeaning w' := by
  unfold semanticWorldDigest at h
  have hfields := token_obj_inj hsha h (by simp) (by simp)
  simp only [List.map_cons, canon_jsonStr, canon_jsonStrings, jsonStr_inj, jsonStrings_inj,
    List.cons.injEq] at hfields
  obtain ⟨hschema, hpredicates, hrelation, -⟩ := hfields
  unfold semanticRelationDigest at hrelation
  have hdigests := (token_inj hsha hrelation).2
  simp only [canon_jsonStrings, jsonStrings_inj] at hdigests
  have hsub {u u' : EffectiveWorld rt}
      (heq : canonicalStrings (u.facts.map (·.semanticFactDigest)) =
        canonicalStrings (u'.facts.map (·.semanticFactDigest))) (m : Meaning rt)
      (hm : ∃ f ∈ u.facts, f.meaning = m) : ∃ f ∈ u'.facts, f.meaning = m := by
    obtain ⟨f, hf, rfl⟩ := hm
    have hmem : f.semanticFactDigest ∈ canonicalStrings (u.facts.map (·.semanticFactDigest)) :=
      mem_canonicalStrings.mpr (List.mem_map_of_mem hf)
    rw [heq, mem_canonicalStrings] at hmem
    obtain ⟨g, hg, hdigest⟩ := List.mem_map.mp hmem
    exact ⟨g, hg, Fact.meaning_eq hsha hdigest⟩
  refine ⟨hschema, ?_, ?_⟩
  · intro p
    rw [hpredicates]
  · intro m
    exact ⟨hsub hdigests m, hsub hdigests.symm m⟩

/-- The resolution digest tells the world. -/
theorem EffectiveWorld.resolutionEvidenceDigest_inj {w w' : EffectiveWorld rt}
    (h : w.resolutionEvidenceDigest = w'.resolutionEvidenceDigest) : w = w' := by
  unfold resolutionEvidenceDigest at h
  have hfields := token_obj_inj hsha h (by simp) (by simp)
  simp only [List.map_cons, canon_jsonStr, canon_jsonStrings, jsonStr_inj, jsonStrings_inj,
    List.cons.injEq] at hfields
  obtain ⟨hsemantic, hbase, hadmissibility, hrelation, hclosures, hoperations, -⟩ := hfields
  have hsame := EffectiveWorld.sameMeaning hsha hsemantic
  have hpredicates : w.dependencyPredicateIds = w'.dependencyPredicateIds := by
    rw [← w.canonical, ← w'.canonical]
    exact canonicalStrings_congr hsame.predicates
  have hschema := hsame.schema
  unfold resolutionRelationDigest at hrelation
  have hfacts := (token_inj hsha hrelation).2
  simp only [canon_jsonStrings, jsonStrings_inj] at hfacts
  obtain ⟨s, b, a, p, f, c, o, _⟩ := w
  obtain ⟨s', b', a', p', f', c', o', _⟩ := w'
  obtain rfl : f = f' :=
    List.map_injective_iff.mpr (fun _ _ => Fact.evidenceFactDigest_inj hsha) hfacts
  obtain rfl : o = o' :=
    List.map_injective_iff.mpr (fun _ _ => OperationEvidence.operationEvidenceDigest_inj hsha)
      hoperations
  cases hschema
  cases hbase
  cases hadmissibility
  cases hpredicates
  cases hclosures
  rfl

end

/-- **The digests separate meaning from evidence.** Worlds of one meaning have one semantic digest; and
where the digest has no collisions, worlds with one semantic digest mean the same, and worlds with one
resolution digest agree on everything. -/
theorem EffectiveWorld.digests_separate (w w' : EffectiveWorld rt) :
    (w.SameMeaning w' → w.semanticWorldDigest = w'.semanticWorldDigest) ∧
      (Function.Injective rt.sha256 →
        (w.semanticWorldDigest = w'.semanticWorldDigest → w.SameMeaning w') ∧
        (w.resolutionEvidenceDigest = w'.resolutionEvidenceDigest → w = w')) := by
  refine ⟨EffectiveWorld.semanticWorldDigest_eq, ?_⟩
  intro hsha
  exact ⟨EffectiveWorld.sameMeaning hsha, EffectiveWorld.resolutionEvidenceDigest_inj hsha⟩

/-- An interpreter whose digest has no collisions. -/
def plainRuntime : Runtime := ⟨asciiHost, id⟩

/-- A digest of one digit over and over. -/
def digestOf (digit : Char) : String := "sha256:" ++ String.ofList (List.replicate 64 digit)

/-- A world of one fact. -/
def worldOf (witnessId : String) : EffectiveWorld plainRuntime where
  schemaDigest := digestOf '0'
  baseViewDigest := digestOf '1'
  admissibilityDigest := digestOf '2'
  dependencyPredicateIds := ["person:age"]
  facts := [⟨"person:age", witnessId, [⟨"int", .int 41, rfl⟩], .baselineSupport, none, [],
    Display.empty, [], []⟩]
  closureTargetDigests := []
  operationEvidence := []
  canonical := rfl

/-- A fact under another witness means the same, and is another piece of evidence. -/
theorem witness_is_evidence :
    (worldOf "w1").semanticWorldDigest = (worldOf "w2").semanticWorldDigest ∧
      (worldOf "w1").resolutionEvidenceDigest ≠ (worldOf "w2").resolutionEvidenceDigest := by
  obtain ⟨hsemantic, hevidence⟩ := EffectiveWorld.digests_separate (worldOf "w1") (worldOf "w2")
  refine ⟨hsemantic ⟨rfl, fun _ => Iff.rfl, ?_⟩, ?_⟩
  · intro m
    simp [worldOf, Fact.meaning]
  · intro heq
    have hworld := (hevidence Function.injective_id).2 heq
    have hfacts := congrArg (fun w => w.facts.map (·.witnessId)) hworld
    simp [worldOf] at hfacts

/-! ## Building a world -/

/-- Under a key of its own for each item, the order is that of the keys. -/
theorem sortOn_perm {α : Type} {key : α → String} (hkey : Function.Injective key) {as bs : List α}
    (h : as.Perm bs) : sortOn key as = sortOn key bs := by
  have htotal : Std.Total fun a b : α => key a ≤ key b := ⟨fun a b => le_total (key a) (key b)⟩
  have htrans : IsTrans α fun a b : α => key a ≤ key b := ⟨fun _ _ _ => le_trans⟩
  unfold sortOn
  refine @List.Perm.eq_of_pairwise _ (fun a b => key a ≤ key b) _ _ ?_ ?_ ?_ ?_
  · intro a b _ _ hab hba
    exact hkey (le_antisymm hab hba)
  · exact List.pairwise_insertionSort _ _
  · exact List.pairwise_insertionSort _ _
  · exact ((List.perm_insertionSort _ _).trans h).trans (List.perm_insertionSort _ _).symm

/-- **A world is built alike in whatever order its parts are given**, and where it is refused, it is
refused in any order with the same error. -/
theorem EffectiveWorld.make_perm (hsha : Function.Injective rt.sha256) {s b a : String}
    {predicates predicates' closures closures' : List String} {facts facts' : List (Fact rt)}
    {operations operations' : List (OperationEvidence rt)}
    (hpredicates : ∀ p, p ∈ predicates ↔ p ∈ predicates') (hfacts : facts.Perm facts')
    (hclosures : closures.Perm closures') (hoperations : operations.Perm operations') :
    make s b a predicates facts closures operations =
      make s b a predicates' facts' closures' operations' := by
  have hempty : predicates.isEmpty = predicates'.isEmpty := by
    rw [Bool.eq_iff_iff]
    simp [List.eq_nil_iff_forall_not_mem, hpredicates]
  have hsorted : closures.insertionSort (· ≤ ·) = closures'.insertionSort (· ≤ ·) :=
    @sortOn_perm _ id Function.injective_id _ _ hclosures
  have hnodup {α β : Type} {as bs : List α} (h : as.Perm bs) (f : α → β) :
      (as.map f).Nodup ↔ (bs.map f).Nodup := (h.map f).nodup_iff
  unfold make
  simp only [hempty, canonicalStrings_congr hpredicates, hfacts.all_eq, hnodup hfacts,
    hnodup (hfacts.filter _), hsorted, hnodup hoperations,
    sortOn_perm (fun _ _ => Fact.evidenceFactDigest_inj hsha) hfacts,
    sortOn_perm (fun _ _ => OperationEvidence.operationEvidenceDigest_inj hsha) hoperations]

/-- What is kept of an operation that put in the value of a premise. -/
def operationOf (premiseId : String) : OperationEvidence plainRuntime where
  kind := .setEffectiveValue
  resolvedOperationDigest := digestOf '3'
  metadataBindings := [⟨premiseId, digestOf '4', ⟨none, [], Display.empty⟩, none⟩]
  maskedWitnessIds := []
  syntheticWitnessIds := []

theorem isSha256Token_digestOf {digit : Char} (h : digit ∈ "0123456789abcdef".toList) :
    IsSha256Token (digestOf digit) := by
  have htext : (digestOf digit).toList = "sha256:".toList ++ List.replicate 64 digit := by
    simp only [digestOf, String.toList_append, String.toList_ofList]
  have hrest : (digestOf digit).toList.drop 7 = List.replicate 64 digit := by
    rw [htext]
    rfl
  refine ⟨htext ▸ List.prefix_append _ _, by rw [hrest, List.length_replicate], ?_⟩
  intro c hc
  rw [hrest] at hc
  rw [List.eq_of_mem_replicate hc]
  exact h

theorem operations_nodup :
    ([operationOf "p1", operationOf "p2"].map (·.operationEvidenceDigest)).Nodup := by
  refine List.Nodup.map (fun _ _ => OperationEvidence.operationEvidenceDigest_inj
    Function.injective_id) ?_
  simp [operationOf]

/-- A world of two facts and two operations is built, in either order of its parts. -/
theorem EffectiveWorld.make_perm_two :
    (make (digestOf '0') (digestOf '1') (digestOf '2') ["person:age", "person:name"]
        ((worldOf "w1").facts ++ (worldOf "w2").facts) [digestOf '5']
        [operationOf "p1", operationOf "p2"]).isOk = true ∧
      make (digestOf '0') (digestOf '1') (digestOf '2') ["person:age", "person:name"]
          ((worldOf "w1").facts ++ (worldOf "w2").facts) [digestOf '5']
          [operationOf "p1", operationOf "p2"] =
        make (digestOf '0') (digestOf '1') (digestOf '2') ["person:name", "person:age"]
          ((worldOf "w2").facts ++ (worldOf "w1").facts) [digestOf '5']
          [operationOf "p2", operationOf "p1"] := by
  constructor
  · have htokens : ∀ d ∈ ['0', '1', '2', '5'], IsSha256Token (digestOf d) := by
      have hdigits : ∀ d ∈ ['0', '1', '2', '5'], d ∈ "0123456789abcdef".toList := by simp
      exact fun d hd => isSha256Token_digestOf (hdigits d hd)
    have hclosures : [digestOf '5'].insertionSort (· ≤ ·) = [digestOf '5'] := rfl
    have hids : canonicalStrings ["person:age", "person:name"] = ["person:age", "person:name"] := by
      decide +kernel
    have hnames : each (fun p : String × Nat => requireNonEmptyStr p.1
        s!"EffectiveWorldV2.dependency_predicate_ids[{p.2}]")
        (canonicalStrings ["person:age", "person:name"]).zipIdx = .ok () := by
      rw [hids]
      rfl
    unfold make
    dsimp only
    rw [hclosures, hnames, require_of_true (decide_eq_true operations_nodup)]
    simp [each, htokens, worldOf, Fact.tupleIdentity, require_of_true]
    rfl
  · exact make_perm Function.injective_id (by simp [or_comm]) List.perm_append_comm (.refl _)
      (.swap ..)

end FactGraph.Scenario.V2
