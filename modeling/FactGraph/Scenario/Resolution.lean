import FactGraph.Scenario.Effects
import FactGraph.Scenario.Facts

/-!
# Resolved scenarios

What a success of the resolver says (`Resolution`): the intents of the operations are valid and apart
from each other, the plan has them, the passes ran, and the facts of the effective world are those of
the relation they left.
-/

namespace FactGraph.Scenario

open Protocol Store Check Entity

/-! ## The schema -/

theorem domainsIn_of_mem {ps : List PredicateDoc} {p : PredicateDoc}
    (hids : (ps.map (·.predId)).Nodup) (hp : p ∈ ps) {tags : List String}
    (h : domainsIn p.predId ps = some tags) : tags = p.argSpecs.map (·.typeDomain) := by
  induction ps with
  | nil => cases hp
  | cons q ps ih =>
    rw [List.map_cons, List.nodup_cons] at hids
    unfold domainsIn at h
    rcases List.mem_cons.mp hp with rfl | hp
    · rw [if_pos rfl] at h
      split at h
      · cases h
      · split at h
        · exact (Option.some.inj h).symm
        · -- no other record has this id
          refine absurd ?_ hids.1
          clear ih hids hp
          induction ps with
          | nil => cases h
          | cons r ps ih =>
            rw [List.map_cons, List.mem_cons]
            unfold domainsIn at h
            split at h
            next heq => exact .inl heq.symm
            next => exact .inr (ih h)
    · have hne : q.predId ≠ p.predId := by
        intro heq
        exact hids.1 (List.mem_map.mpr ⟨p, hp, heq.symm⟩)
      rw [if_neg hne] at h
      exact ih hids.2 hp h

section Schema

variable {host : Host} {schema : Schema}

/-- The domain of the values of a field is the second of its predicate. -/
theorem domain_of_field (hindexed : Indexed schema.doc schema.index) {key : String × String}
    {info : PredicateInfo} (hfield : Dict.get? schema.index.fieldPredicates key = some info)
    {tags : List String} (h : domainsIn info.predId schema.doc.predicates = some tags) :
    tags[1]? = info.valueTypeDomain := by
  obtain ⟨p, hp, cardinality, _, _, _, rfl⟩ := (hindexed.fields key.1 key.2 info).mp hfield
  rw [domainsIn_of_mem hindexed.ids hp h, List.getElem?_map]
  rfl

/-- The predicates of the rows of an entity that is created are protected. -/
theorem protected_of_created (hindexed : Indexed schema.doc schema.index) {i : CreateIntent}
    {info : EntityTypeInfo} (hinfo : entityInfo schema.index i.entityType = .ok info) {p : String}
    {row : Row} (h : (p, row) ∈ i.rows host info) :
    ∃ q ∈ schema.doc.predicates, q.predId = p ∧ (q.isEntityExists = true ∨ q.isIdentityField = true) := by
  have hget : Dict.get? schema.index.entities i.entityType = some info := by
    unfold entityInfo at hinfo
    split at hinfo
    next hget =>
      cases hinfo
      exact hget
    next => cases hinfo
  obtain ⟨_, _, _, _, _, ⟨q, hq, hexists, _, hqid⟩, hidentity⟩ := hindexed.entities _ _ hget
  rcases List.mem_cons.mp h with h | h
  · cases h
    exact ⟨q, hq, hqid, .inl hexists⟩
  · obtain ⟨f, _, hf⟩ := List.mem_filterMap.mp h
    split at hf
    next pred value hpred _ =>
      cases hf
      obtain ⟨q, hq, hflag, _, _, c, _, rfl⟩ := hidentity _ _ (Dict.mem_of_get? hpred)
      exact ⟨q, hq, rfl, .inr hflag⟩
    next => cases hf

theorem FieldIntent.Valid.unprotected_predicate (hindexed : Indexed schema.doc schema.index)
    {i : FieldIntent} (h : i.Valid schema) {q : PredicateDoc} (hq : q ∈ schema.doc.predicates)
    (hid : q.predId = i.info.predId) : ¬(q.isEntityExists = true ∨ q.isIdentityField = true) := by
  obtain ⟨fieldName, hfield⟩ := h.field
  obtain ⟨p, hp, c, _, _, _, hinfo⟩ := (hindexed.fields _ _ _).mp hfield
  have hsame : q = p := eq_of_predId hindexed.ids hq hp (hid.trans (congrArg (·.predId) hinfo))
  have hflags := h.unprotected
  rw [hinfo, ← hsame] at hflags
  rintro (hflag | hflag)
  · exact absurd hflags.2 (by rw [PredicateDoc.info, hflag]; simp)
  · exact absurd hflags.1 (by rw [PredicateDoc.info, hflag]; simp)

theorem RelationIntent.Valid.unprotected_predicate (hindexed : Indexed schema.doc schema.index)
    {i : RelationIntent} (h : i.Valid schema) {q : PredicateDoc} (hq : q ∈ schema.doc.predicates)
    (hid : q.predId = i.info.predId) : ¬(q.isEntityExists = true ∨ q.isIdentityField = true) := by
  obtain ⟨p, hget, hallowed, _⟩ := h.relation
  obtain ⟨r, hr, _, owner, c, _, _, hinfo⟩ := hindexed.infos _ _ hget
  have hsame : q = r := eq_of_predId hindexed.ids hq hr (hid.trans (congrArg (·.predId) hinfo))
  unfold isScenarioRelationPredicate at hallowed
  rw [hget] at hallowed
  rintro hflag
  split at hallowed
  next info record hsome _ =>
    cases hsome
    rw [hinfo, ← hsame] at hallowed
    rcases hflag with hflag | hflag <;> simp [PredicateDoc.info, hflag] at hallowed
  next => cases hallowed

/-- The domains of a tuple that is ensured are those of its predicate. -/
theorem RelationIntent.Valid.domains (hindexed : Indexed schema.doc schema.index)
    {i : RelationIntent} (h : i.Valid schema) (hkind : i.kind = .ensure) :
    domainsIn i.info.predId schema.doc.predicates = some (i.values.map (·.tag)) := by
  obtain ⟨p, hget, _, hdomains⟩ := h.relation
  obtain ⟨q, _, hqid, owner, c, _, _, hinfo⟩ := hindexed.infos _ _ hget
  have hid : i.info.predId = p := (congrArg (·.predId) hinfo).trans hqid
  rw [hid]
  exact hdomains hkind

end Schema

/-! ## The intents of a specification -/

/-- The intents of the operations. -/
def ScenarioSpec.intents (host : Host) (schema : Schema) (spec : ScenarioSpec) : List Intent :=
  spec.operations.filterMap fun op => (intentOf host schema op).toOption

section Intents

variable {host : Host} {schema : Schema}

theorem resolveOperation_ok {r : Relation} {op : Operation} {i : Intent}
    (h : resolveOperation host schema r op = .ok i) : intentOf host schema op = .ok i ∧
      (∀ j, i = .field j → j.info.predId ∈ r.predicates) ∧
        ∀ j, i = .relation j → j.info.predId ∈ r.predicates := by
  unfold resolveOperation at h
  obtain ⟨intent, hintent, h⟩ := bind_ok_iff.mp h
  cases intent with
  | field j =>
    obtain ⟨hmem, h⟩ := bind_unit_ok_iff.mp h
    cases h
    refine ⟨hintent, ?_, ?_⟩
    · intro k hk
      cases hk
      exact of_decide_eq_true (demand_ok_iff.mp hmem)
    · intro k hk
      cases hk
  | relation j =>
    obtain ⟨hmem, h⟩ := bind_unit_ok_iff.mp h
    cases h
    refine ⟨hintent, ?_, ?_⟩
    · intro k hk
      cases hk
    · intro k hk
      cases hk
      exact of_decide_eq_true (demand_ok_iff.mp hmem)
  | create j =>
    cases h
    exact ⟨hintent, nofun, nofun⟩
  | entity j =>
    cases h
    exact ⟨hintent, nofun, nofun⟩
  | assertion j =>
    cases h
    exact ⟨hintent, nofun, nofun⟩

theorem intents_eq_of_ok {r : Relation} {spec : ScenarioSpec} {intents : List Intent}
    (h : mapOk (resolveOperation host schema r) spec.operations = .ok intents) :
    spec.intents host schema = intents := by
  have hall := mapOk_ok_iff.mp h
  clear h
  unfold ScenarioSpec.intents
  generalize spec.operations = ops at hall
  induction hall with
  | nil => rfl
  | cons hop _ ih =>
    have hsome := (resolveOperation_ok hop).1
    rw [List.filterMap_cons, hsome]
    show _ :: _ = _
    rw [ih]

theorem mem_intents {spec : ScenarioSpec} {i : Intent} :
    i ∈ spec.intents host schema ↔ ∃ op ∈ spec.operations, intentOf host schema op = .ok i := by
  unfold ScenarioSpec.intents
  rw [List.mem_filterMap]
  apply exists_congr
  intro op
  apply and_congr_right
  intro _
  cases intentOf host schema op with
  | error e => simp [Except.toOption]
  | ok j => simp [Except.toOption]

theorem valid_of_relation {op : Operation} {i : RelationIntent}
    (h : intentOf host schema op = .ok (.relation i)) : i.Valid schema := by
  have htarget : ∀ {p : String} {info : PredicateInfo} {domains : List String},
      relationTarget host schema p = .ok (info, domains) →
        Dict.get? schema.index.predicatesById p = some info ∧
          isScenarioRelationPredicate schema p = true ∧
            domainsIn p schema.doc.predicates = some domains := by
    intro p info domains htarget
    unfold relationTarget at htarget
    obtain ⟨_, _, htarget⟩ := bind_ok_iff.mp htarget
    split at htarget
    next => cases htarget
    next info' hget =>
      obtain ⟨hallowed, htarget⟩ := bind_unit_ok_iff.mp htarget
      obtain ⟨domains', hdomains, htarget⟩ := bind_ok_iff.mp htarget
      cases htarget
      exact ⟨hget, demand_ok_iff.mp hallowed, predicateDomains_ok_iff.mp hdomains⟩
  cases op with
  | ensureRelation premiseId predicateId values originRefs =>
    obtain ⟨⟨info, domains⟩, hok, h⟩ := bind_ok_iff.mp h
    obtain ⟨htags, h⟩ := bind_unit_ok_iff.mp h
    cases h
    obtain ⟨hget, hallowed, hdomains⟩ := htarget hok
    refine ⟨predicateId, hget, hallowed, ?_⟩
    intro _
    rw [of_decide_eq_true (demand_ok_iff.mp htags)]
    exact hdomains
  | withoutRelation premiseId predicateId originRefs =>
    obtain ⟨⟨info, domains⟩, hok, h⟩ := bind_ok_iff.mp h
    cases h
    obtain ⟨hget, hallowed, _⟩ := htarget hok
    exact ⟨predicateId, hget, hallowed, nofun⟩
  | setEffectiveValue | ensureMember | setExactMembers | withoutField | withoutValue =>
    obtain ⟨_, hi, _⟩ := fieldIntent_ok h
    cases hi
  | createEphemeralEntity premiseId entity originRefs =>
    obtain ⟨_, _, h⟩ := bind_ok_iff.mp h
    obtain ⟨_, _, h⟩ := bind_ok_iff.mp h
    cases h
  | withoutEntity premiseId entity originRefs =>
    obtain ⟨_, _, h⟩ := bind_ok_iff.mp h
    cases h
  | withoutAssertion premiseId assertionId originRefs => cases h

theorem reference_of_entity {op : Operation} {i : EntityIntent}
    (h : intentOf host schema op = .ok (.entity i)) :
    startsWith entityRefPrefix i.entityRef = true := by
  cases op with
  | withoutEntity premiseId entity originRefs =>
    obtain ⟨⟨canonical, e, info⟩, hentity, h⟩ := bind_ok_iff.mp h
    cases h
    exact (canonicalEntityRef_ok hentity).2.1
  | setEffectiveValue | ensureMember | setExactMembers | withoutField | withoutValue =>
    obtain ⟨_, hi, _⟩ := fieldIntent_ok h
    cases hi
  | createEphemeralEntity premiseId entity originRefs =>
    obtain ⟨_, _, h⟩ := bind_ok_iff.mp h
    obtain ⟨_, _, h⟩ := bind_ok_iff.mp h
    cases h
  | ensureRelation premiseId predicateId values originRefs =>
    obtain ⟨_, _, h⟩ := bind_ok_iff.mp h
    obtain ⟨_, h⟩ := bind_unit_ok_iff.mp h
    cases h
  | withoutRelation premiseId predicateId originRefs =>
    obtain ⟨_, _, h⟩ := bind_ok_iff.mp h
    cases h
  | withoutAssertion premiseId assertionId originRefs => cases h

theorem reference_of_create {op : Operation} {i : CreateIntent}
    (h : intentOf host schema op = .ok (.create i)) :
    startsWith entityRefPrefix i.entityRef = true := by
  cases op with
  | createEphemeralEntity premiseId entity originRefs =>
    obtain ⟨⟨canonical, e, info⟩, hentity, h⟩ := bind_ok_iff.mp h
    obtain ⟨values, _, h⟩ := bind_ok_iff.mp h
    cases h
    exact (canonicalEntityRef_ok hentity).2.1
  | setEffectiveValue | ensureMember | setExactMembers | withoutField | withoutValue =>
    obtain ⟨_, hi, _⟩ := fieldIntent_ok h
    cases hi
  | withoutEntity premiseId entity originRefs =>
    obtain ⟨_, _, h⟩ := bind_ok_iff.mp h
    cases h
  | ensureRelation premiseId predicateId values originRefs =>
    obtain ⟨_, _, h⟩ := bind_ok_iff.mp h
    obtain ⟨_, h⟩ := bind_unit_ok_iff.mp h
    cases h
  | withoutRelation premiseId predicateId originRefs =>
    obtain ⟨_, _, h⟩ := bind_ok_iff.mp h
    cases h
  | withoutAssertion premiseId assertionId originRefs => cases h

end Intents

/-! ## A success of the resolver -/

/-- What a success of the resolver says of the intents, the plan and the effective facts. -/
structure Resolution (host : Host) (schema : Schema) (baseline : Relation) (intents : List Intent)
    (plan : Plan) (s : Progress) (facts : List WorldFact) where
  fields : ∀ i, .field i ∈ intents → i.Valid schema
  relations : ∀ i, .relation i ∈ intents → i.Valid schema
  references : ∀ i, .entity i ∈ intents → startsWith entityRefPrefix i.entityRef = true
  createReferences : ∀ i, .create i ∈ intents → startsWith entityRefPrefix i.entityRef = true
  created : ∀ i j, .create i ∈ intents → .entity j ∈ intents → i.entityRef ≠ j.entityRef
  changed : ∀ i j, .field i ∈ intents → .entity j ∈ intents → i.entityRef ≠ j.entityRef
  ensured : ∀ i j, .relation i ∈ intents → .entity j ∈ intents → i.kind = .ensure →
    ∀ v ∈ i.values, ¬(v.tag = "entity_ref" ∧ v.toRaw = text j.entityRef)
  normalized : normalize host intents = .ok plan
  planned : Planned intents plan
  trace : Trace host schema (plan.creates.map (·.entityRef)) baseline.sorted plan s
  facts : FactsOf schema s.relation s.syntheticIds facts
  base : ∃ facts, FactsOf schema baseline.sorted [] facts

/-- What the two worlds of a resolved scenario record. -/
structure Recorded (host : Host) (schema : Schema) (baseline : Relation) (s : Progress)
    (resolved : ResolvedScenario) : Prop where
  sound : baseline.Sound
  base : FactsOf schema baseline.sorted [] resolved.baselineWorld.facts
  operations : ∀ o, o ∈ resolved.effectiveWorld.operations ↔ o ∈ s.resolved
  closure : ∀ t, t ∈ resolved.effectiveWorld.closure ↔
    ∃ o ∈ s.resolved, ∃ ts, closureTargets host o = .ok ts ∧ t ∈ ts
  targets : ∀ o ∈ s.resolved, ∃ ts, closureTargets host o = .ok ts

/-- What the constructor of a world keeps of its parts. -/
theorem effectiveWorld_ok {host : Host} {schemaDigest baseViewDigest admissibilityDigest : String}
    {dependencyPredicateIds : List String} {facts : List WorldFact}
    {operations : List ResolvedOperation} {closure : List ClosureTarget} {world : World}
    (h : effectiveWorld host schemaDigest baseViewDigest admissibilityDigest dependencyPredicateIds
      facts operations closure = .ok world) :
    (∀ f, f ∈ world.facts ↔ f ∈ facts) ∧ (∀ o, o ∈ world.operations ↔ o ∈ operations) ∧
      world.closure = closure := by
  unfold effectiveWorld at h
  obtain ⟨_, h⟩ := bind_unit_ok_iff.mp h
  obtain ⟨_, h⟩ := bind_unit_ok_iff.mp h
  obtain ⟨_, h⟩ := bind_unit_ok_iff.mp h
  obtain ⟨_, h⟩ := bind_unit_ok_iff.mp h
  obtain ⟨_, h⟩ := bind_unit_ok_iff.mp h
  cases h
  exact ⟨fun _ => mem_sortOn, fun _ => mem_sortOn, rfl⟩

theorem factsOf_congr {schema : Schema} {r : Relation} {synthetic : List String}
    {facts facts' : List WorldFact} (hmem : ∀ f, f ∈ facts' ↔ f ∈ facts)
    (h : FactsOf schema r synthetic facts) : FactsOf schema r synthetic facts' := by
  refine ⟨fun f hf => h.row f ((hmem f).mp hf), ?_⟩
  intro p row hrow
  obtain ⟨f, hf, hof⟩ := h.fact p row hrow
  exact ⟨f, (hmem f).mpr hf, hof⟩

theorem resolution_of_ok {host : Host} {schema : Schema} {spec : ScenarioSpec} {baseline : Relation}
    {baseViewDigest admissibilityDigest : String} {resolved : ResolvedScenario}
    (h : resolveScenario host schema spec baseline baseViewDigest admissibilityDigest =
      .ok resolved) :
    (∀ op ∈ spec.operations, ∃ i, intentOf host schema op = .ok i) ∧ ∃ plan s,
      Nonempty (Resolution host schema baseline (spec.intents host schema) plan s
        resolved.effectiveWorld.facts) ∧ Recorded host schema baseline s resolved := by
  unfold resolveScenario at h
  obtain ⟨_, h⟩ := bind_unit_ok_iff.mp h
  obtain ⟨_, h⟩ := bind_unit_ok_iff.mp h
  obtain ⟨r, hr, h⟩ := bind_ok_iff.mp h
  obtain ⟨_, h⟩ := bind_unit_ok_iff.mp h
  obtain ⟨_, h⟩ := bind_unit_ok_iff.mp h
  obtain ⟨baseFacts, hbase, h⟩ := bind_ok_iff.mp h
  obtain ⟨baseWorld, hbaseWorld, h⟩ := bind_ok_iff.mp h
  obtain ⟨intents, hintents, h⟩ := bind_ok_iff.mp h
  obtain ⟨hapart, h⟩ := bind_unit_ok_iff.mp h
  obtain ⟨plan, hplan, h⟩ := bind_ok_iff.mp h
  obtain ⟨_, h⟩ := bind_unit_ok_iff.mp h
  obtain ⟨_, h⟩ := bind_unit_ok_iff.mp h
  obtain ⟨s, hs, h⟩ := bind_ok_iff.mp h
  obtain ⟨closure, hclosure, h⟩ := bind_ok_iff.mp h
  obtain ⟨facts, hfacts, h⟩ := bind_ok_iff.mp h
  obtain ⟨world, hworld, h⟩ := bind_ok_iff.mp h
  cases h
  -- the source checks in this order; what is proved below is what later checks rest on
  obtain ⟨hsound, rfl⟩ := freezeRelation_ok_iff.mp hr
  have hsource : ∀ i ∈ intents, ∃ op ∈ spec.operations,
      resolveOperation host schema baseline.sorted op = .ok i := fun i hi => mem_of_mapOk hintents hi
  have hvalid : ∀ i, .field i ∈ intents → i.Valid schema := by
    intro i hi
    obtain ⟨op, _, hop⟩ := hsource _ hi
    exact valid_of_field (resolveOperation_ok hop).1
  have hplanned := planned_of_normalize hvalid hplan
  -- an intent of the plan is on a relation of the baseline, since it comes from an operation
  have hrelations : ∀ i ∈ plan.relations, i.info.predId ∈ baseline.sorted.predicates := by
    intro i hi
    have hj : ∃ j, .relation j ∈ intents ∧ j.info.predId = i.info.predId := by
      cases hkind : i.kind with
      | ensure =>
        obtain ⟨j, hj, _, hp, _⟩ := (hplanned.ensures _ _).mp ⟨i, hi, hkind, rfl, rfl⟩
        exact ⟨j, hj, hp⟩
      | without =>
        obtain ⟨j, hj, _, hp⟩ := (hplanned.withouts _).mp ⟨i, hi, hkind, rfl⟩
        exact ⟨j, hj, hp⟩
    obtain ⟨j, hj, hp⟩ := hj
    obtain ⟨op, _, hop⟩ := hsource _ hj
    exact hp ▸ (resolveOperation_ok hop).2.2 j rfl
  have hfields : ∀ i ∈ plan.fields, i.info.predId ∈ baseline.sorted.predicates := by
    intro i hi
    obtain ⟨is, hnormal, his⟩ := hplanned.fields i hi
    obtain ⟨j, hj, _⟩ := hnormal.sample
    obtain ⟨op, _, hop⟩ := hsource _ ((his j).mp hj).1
    rw [hnormal.target j hj]
    exact (resolveOperation_ok hop).2.1 j rfl
  obtain ⟨t⟩ := trace_of_applyPlan hrelations hfields hs
  unfold requireApart at hapart
  obtain ⟨hcreated, hapart⟩ := bind_unit_ok_iff.mp hapart
  obtain ⟨hchanged, hensured⟩ := bind_unit_ok_iff.mp hapart
  have hremoved : ∀ j, .entity j ∈ intents →
      j.entityRef ∈ (intents.filterMap Intent.entity?).map (·.entityRef) :=
    fun j hj => List.mem_map.mpr ⟨j, mem_entity?.mpr hj, rfl⟩
  obtain ⟨hmem, hoperations, hsame⟩ := effectiveWorld_ok hworld
  obtain ⟨hbaseMem, _, _⟩ := effectiveWorld_ok hbaseWorld
  refine ⟨?_, plan, s, ⟨?_⟩, ?_⟩
  · intro op hop
    obtain ⟨i, _, hi⟩ := image_of_mapOk hintents hop
    exact ⟨i, (resolveOperation_ok hi).1⟩
  · rw [intents_eq_of_ok hintents]
    constructor
    · exact hvalid
    · intro i hi
      obtain ⟨op, _, hop⟩ := hsource _ hi
      exact valid_of_relation (resolveOperation_ok hop).1
    · intro i hi
      obtain ⟨op, _, hop⟩ := hsource _ hi
      exact reference_of_entity (resolveOperation_ok hop).1
    · intro i hi
      obtain ⟨op, _, hop⟩ := hsource _ hi
      exact reference_of_create (resolveOperation_ok hop).1
    · intro i j hi hj heq
      have hnot := of_decide_eq_true (List.all_eq_true.mp (demand_ok_iff.mp hcreated) i.entityRef
        (List.mem_map.mpr ⟨i, mem_create?.mpr hi, rfl⟩))
      exact hnot (heq ▸ hremoved j hj)
    · intro i j hi hj heq
      have hnot := of_decide_eq_true (List.all_eq_true.mp (demand_ok_iff.mp hchanged) i.entityRef
        (List.mem_map.mpr ⟨i, mem_field?.mpr hi, rfl⟩))
      exact hnot (heq ▸ hremoved j hj)
    · rintro i j hi hj hkind v hv ⟨htag, hraw⟩
      have hok := List.all_eq_true.mp (demand_ok_iff.mp hensured) i (mem_relation?.mpr hi)
      rw [hkind] at hok
      have hv := List.all_eq_true.mp hok v hv
      rw [htag, hraw] at hv
      have hnot : text j.entityRef ∉
          ((intents.filterMap Intent.entity?).map (·.entityRef)).map text := by
        simpa using hv
      exact hnot (List.mem_map.mpr ⟨_, hremoved j hj, rfl⟩)
    · exact hplan
    · exact hplanned
    · exact t
    · exact factsOf_congr hmem (factsOf_of_typedFacts hfacts)
    · exact ⟨baseFacts, factsOf_of_typedFacts hbase⟩
  -- the closure targets are those of the operations
  · unfold closureForOperations at hclosure
    obtain ⟨targets, htargets, hclosure⟩ := bind_ok_iff.mp hclosure
    unfold closureScope at hclosure
    obtain ⟨_, hclosure⟩ := bind_unit_ok_iff.mp hclosure
    cases hclosure
    refine ⟨hsound, factsOf_congr hbaseMem (factsOf_of_typedFacts hbase), hoperations, ?_, ?_⟩
    · intro t
      show t ∈ world.closure ↔ _
      rw [hsame, mem_sortOn, mem_of_collect_ok htargets]
    · intro o ho
      exact ok_of_collect_ok htargets o ho

end FactGraph.Scenario
