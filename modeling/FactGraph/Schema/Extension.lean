import FactGraph.Entity.Index

/-!
# Additive extensions of a schema

`validate_additive_schema_extension` in `application/schema_mutation_runtime.py`: which schema
documents may take the place of the current one. What it compares is a selection of the keys of an
entity and of a predicate (`_predicate_stable_projection`); the rest of a document may change.
-/

namespace FactGraph.Schema

open Entity Check

/-! ## Errors -/

/-- What the validator raises: the errors of `ensure_schema_ir`, and `SDKStoreError`. -/
inductive MutationError where
  | schemaIr (e : Fault)
  | sdkStore (message : String)

/-- `raise SDKStoreError(message)` unless the condition holds. -/
def requireStore (c : Bool) (message : String) : Except MutationError Unit :=
  require c (.sdkStore message)

/-- `ensure_schema_ir`. -/
def ensureSchema (doc : SchemaDoc) : Except MutationError Unit :=
  match ensureSchemaIr doc with
  | .ok () => .ok ()
  | .error e => .error (.schemaIr e)

/-! ## What is compared -/

/-- One turn of `_entities_by_type`. -/
def addEntityByType (out : List (String × EntityDoc)) (e : EntityDoc) :
    Except MutationError (List (String × EntityDoc)) := do
  requireStore (e.entityType ≠ "") "schema_ir.entities[*].entity_type must be non-empty string"
  requireStore (!Dict.has out e.entityType) s!"duplicate entity type in schema_ir: {e.entityType}"
  .ok (Dict.set out e.entityType e)

/-- `_entities_by_type`. -/
def entitiesByType (doc : SchemaDoc) : Except MutationError (List (String × EntityDoc)) :=
  doc.entities.foldlM addEntityByType []

/-- One turn of `_predicates_by_id`: of two predicates with one id the last one counts. -/
def addPredicateById (out : List (String × PredicateDoc)) (p : PredicateDoc) :
    Except MutationError (List (String × PredicateDoc)) := do
  requireStore (p.predId ≠ "") "schema_ir.predicates[*].pred_id must be non-empty string"
  .ok (Dict.set out p.predId p)

/-- `_predicates_by_id`. -/
def predicatesById (doc : SchemaDoc) : Except MutationError (List (String × PredicateDoc)) :=
  doc.predicates.foldlM addPredicateById []

/-- The loop of `_duplicate_predicate_ids`. -/
def duplicateIds (seen : List String) : List String → List String
  | [] => []
  | id :: rest =>
      if id ∈ seen then id :: duplicateIds (id :: seen) rest else duplicateIds (id :: seen) rest

/-- `_relationship_targets`. -/
def relationshipTargets (p : PredicateDoc) : Option String × Option String × Option String :=
  (p.relationshipType, p.fromEntityType, p.toEntityType)

/-- `_predicate_stable_projection`, a key that is missing as `none`. -/
structure StableProjection where
  argSpecs : List ArgSpec
  arity : Option Int
  cardinality : Option String
  fromEntityType : Option String
  groupKeyIndexes : List Int
  isEntityExists : Option Bool
  isIdentityField : Option Bool
  ownerType : Option String
  predId : String
  pyFieldName : Option String
  relationshipType : Option String
  toEntityType : Option String
  deriving DecidableEq

def predicateStableProjection (p : PredicateDoc) : StableProjection where
  argSpecs := p.argSpecs
  arity := p.arity
  cardinality := p.cardinality
  fromEntityType := p.fromEntityType
  groupKeyIndexes := p.groupKeyIndexes
  isEntityExists := p.entityExists
  isIdentityField := p.identityField
  ownerType := p.ownerType
  predId := p.predId
  pyFieldName := p.pyFieldName
  relationshipType := p.relationshipType
  toEntityType := p.toEntityType

/-! ## The validator -/

/-- The checks of an entity of the current schema. -/
def checkEntity (candidate : List (String × EntityDoc)) (p : String × EntityDoc) :
    Except MutationError Unit :=
  match Dict.get? candidate p.1 with
  | none => .error (.sdkStore s!"existing entity type removed: {p.1}")
  | some e =>
      requireStore (p.2.identityFields = e.identityFields)
        s!"identity field changed for existing entity type: {p.1}"

/-- The checks of a predicate of the current schema. -/
def checkExistingPredicate (candidate : List (String × PredicateDoc)) (p : String × PredicateDoc) :
    Except MutationError Unit :=
  match Dict.get? candidate p.1 with
  | none => .error (.sdkStore s!"existing predicate id removed or changed: {p.1}")
  | some q => do
      requireStore (relationshipTargets p.2 = relationshipTargets q)
        s!"relationship target changed for existing predicate: {p.1}"
      requireStore (predicateStableProjection p.2 = predicateStableProjection q)
        s!"existing field changed for predicate: {p.1}"

/-- The checks of a predicate of the candidate. -/
def checkNewPredicate (current : List (String × PredicateDoc))
    (currentEntities candidateEntities : List (String × EntityDoc)) (p : String × PredicateDoc) :
    Except MutationError Unit :=
  if Dict.has current p.1 then .ok ()
  else
    match p.2.ownerType.filter (· ≠ "") with
    | none =>
        .error (.sdkStore
          s!"new predicate owner_type missing for additive schema extension: {p.1}")
    | some owner =>
        if Dict.has candidateEntities owner && !Dict.has currentEntities owner then .ok ()
        else do
          requireStore (Dict.has currentEntities owner)
            s!"new predicate owner is not an entity type in additive schema extension: {p.1}"
          requireStore (p.2.identityField ≠ some true)
            s!"identity field addition is not supported: {p.1}"
          requireStore (p.2.entityExists ≠ some true)
            s!"entity-exists predicate addition is not supported for existing entity: {p.1}"
          requireStore p.2.relationshipType.isNone
            s!"relationship predicate addition is not supported in field-add slice: {p.1}"

/-- The message of a duplicate id of the candidate. -/
def rejectDuplicate (current : List (String × PredicateDoc)) (predId : String) :
    Except MutationError Unit :=
  if Dict.has current predId then
    .error (.sdkStore s!"predicate id collision for additive schema extension: {predId}")
  else .error (.sdkStore s!"duplicate predicate id in candidate schema: {predId}")

/-- `validate_additive_schema_extension`. -/
def validateAdditiveSchemaExtension (current candidate : SchemaDoc) : Except MutationError Unit := do
  ensureSchema current
  ensureSchema candidate
  let currentEntities ← entitiesByType current
  let candidateEntities ← entitiesByType candidate
  each (checkEntity candidateEntities) currentEntities
  let currentPredicates ← predicatesById current
  let candidatePredicates ← predicatesById candidate
  each (rejectDuplicate currentPredicates)
    ((duplicateIds [] (candidate.predicates.map (·.predId))).dedup.insertionSort (· ≤ ·))
  each (checkExistingPredicate candidatePredicates) currentPredicates
  each (checkNewPredicate currentPredicates currentEntities candidateEntities) candidatePredicates

/-- The candidate may take the place of the current schema. -/
def Accepts (current candidate : SchemaDoc) : Prop :=
  validateAdditiveSchemaExtension current candidate = .ok ()

/-! ## What acceptance says -/

/-- The types of the entities of a document. -/
def types (doc : SchemaDoc) : List String := doc.entities.map (·.entityType)

/-- The ids of the predicates of a document. -/
def predIds (doc : SchemaDoc) : List String := doc.predicates.map (·.predId)

/-- The dictionary of the predicates of a document. -/
def byId (doc : SchemaDoc) : List (String × PredicateDoc) :=
  Dict.update [] (doc.predicates.map fun p => (p.predId, p))

/-- The document passes the checks that are about itself. -/
structure Readable (doc : SchemaDoc) : Prop where
  schemaIr : ensureSchema doc = .ok ()
  entities : ∃ es, entitiesByType doc = .ok es
  predicates : ∃ ps, predicatesById doc = .ok ps

/-- What the validator checks of the two documents together. -/
structure Extends (current candidate : SchemaDoc) : Prop where
  entities : ∀ e ∈ current.entities, ∃ e' ∈ candidate.entities,
    e'.entityType = e.entityType ∧ e.identityFields = e'.identityFields
  ids : (predIds candidate).Nodup
  existing : ∀ id p, Dict.get? (byId current) id = some p →
    ∃ q ∈ candidate.predicates, predicateStableProjection p = predicateStableProjection q
  added : ∀ q ∈ candidate.predicates, q.predId ∉ predIds current →
    ∃ owner, q.ownerType = some owner ∧ owner ≠ "" ∧
      ((owner ∈ types candidate ∧ owner ∉ types current) ∨
        (owner ∈ types current ∧ q.identityField ≠ some true ∧ q.entityExists ≠ some true ∧
          q.relationshipType = none))

/-! ### The dictionaries -/

theorem entitiesByType_ok : ∀ {entities : List EntityDoc} {out out' : List (String × EntityDoc)},
    (Dict.keys out).Nodup → entities.foldlM addEntityByType out = .ok out' →
      out' = out ++ entities.map (fun e => (e.entityType, e)) ∧ (Dict.keys out').Nodup := by
  intro entities
  induction entities with
  | nil =>
    intro out out' hout hfold
    cases hfold
    exact ⟨by simp, hout⟩
  | cons e entities ih =>
    intro out out' hout hfold
    rw [List.foldlM_cons] at hfold
    obtain ⟨out₁, hadd, hfold⟩ := bind_ok_iff.mp hfold
    obtain ⟨_, hadd⟩ := bind_unit_ok_iff.mp hadd
    obtain ⟨hnew, hadd⟩ := bind_unit_ok_iff.mp hadd
    cases hadd
    have hfree : e.entityType ∉ Dict.keys out := by
      rw [← Dict.has_iff]
      simpa [requireStore] using hnew
    obtain ⟨hout', hnodup⟩ := ih (Dict.nodup_keys_set hout _ _) hfold
    rw [Dict.set_of_not_mem hfree, List.append_assoc] at hout'
    exact ⟨hout', hnodup⟩

/-- The dictionary of the entities of a document. -/
theorem mem_entities_iff {doc : SchemaDoc} {es : List (String × EntityDoc)}
    (h : entitiesByType doc = .ok es) {p : String × EntityDoc} :
    p ∈ es ↔ p.2 ∈ doc.entities ∧ p.2.entityType = p.1 := by
  obtain ⟨hes, _⟩ := entitiesByType_ok (by simp [Dict.keys]) h
  rw [hes, List.nil_append, List.mem_map]
  constructor
  · rintro ⟨e, he, rfl⟩
    exact ⟨he, rfl⟩
  · intro hp
    exact ⟨p.2, hp.1, Prod.ext hp.2 rfl⟩

theorem get?_entities_iff {doc : SchemaDoc} {es : List (String × EntityDoc)}
    (h : entitiesByType doc = .ok es) {t : String} {e : EntityDoc} :
    Dict.get? es t = some e ↔ e ∈ doc.entities ∧ e.entityType = t := by
  obtain ⟨_, hnodup⟩ := entitiesByType_ok (by simp [Dict.keys]) h
  rw [Dict.get?_eq_some_iff hnodup, mem_entities_iff h]

theorem has_entities_iff {doc : SchemaDoc} {es : List (String × EntityDoc)}
    (h : entitiesByType doc = .ok es) {t : String} : Dict.has es t = true ↔ t ∈ types doc := by
  rw [Dict.has_iff, Dict.mem_keys_iff, types, List.mem_map]
  constructor
  · rintro ⟨e, he⟩
    exact ⟨e, (get?_entities_iff h).mp he⟩
  · rintro ⟨e, he⟩
    exact ⟨e, (get?_entities_iff h).mpr he⟩

theorem predicatesById_ok : ∀ {ps : List PredicateDoc} {out out' : List (String × PredicateDoc)},
    ps.foldlM addPredicateById out = .ok out' →
      out' = Dict.update out (ps.map fun p => (p.predId, p)) := by
  intro ps
  induction ps with
  | nil =>
    intro out out' hfold
    cases hfold
    rfl
  | cons p ps ih =>
    intro out out' hfold
    rw [List.foldlM_cons] at hfold
    obtain ⟨out₁, hadd, hfold⟩ := bind_ok_iff.mp hfold
    obtain ⟨_, hadd⟩ := bind_unit_ok_iff.mp hadd
    cases hadd
    rw [ih hfold]
    rfl

theorem predicatesById_eq {doc : SchemaDoc} {ps : List (String × PredicateDoc)}
    (h : predicatesById doc = .ok ps) : ps = byId doc :=
  predicatesById_ok h

/-- A predicate of the dictionary is one of the document, under its own id. -/
theorem of_byId {doc : SchemaDoc} {id : String} {p : PredicateDoc}
    (h : Dict.get? (byId doc) id = some p) : p ∈ doc.predicates ∧ p.predId = id := by
  have hstored : ∀ (ps : List PredicateDoc) (d : List (String × PredicateDoc)),
      Dict.get? (Dict.update d (ps.map fun p => (p.predId, p))) id = some p →
        (p ∈ ps ∧ p.predId = id) ∨ Dict.get? d id = some p := by
    intro ps
    induction ps with
    | nil =>
      intro d hd
      exact .inr hd
    | cons q ps ih =>
      intro d hd
      rcases ih (Dict.set d q.predId q) hd with ⟨hp, hid⟩ | hset
      · exact .inl ⟨List.mem_cons_of_mem _ hp, hid⟩
      · rw [Dict.get?_set] at hset
        split at hset
        next hid =>
          cases hset
          exact .inl ⟨List.mem_cons_self, hid.symm⟩
        next => exact .inr hset
  rcases hstored doc.predicates [] h with hp | hnone
  · exact hp
  · cases hnone

theorem has_byId_iff {doc : SchemaDoc} {id : String} :
    Dict.has (byId doc) id = true ↔ id ∈ predIds doc := by
  rw [Dict.has_iff, byId, Dict.mem_keys_update, predIds, Dict.keys, Dict.keys, List.map_map]
  simp [Function.comp_def]

/-- Where no two predicates share an id, all of them count. -/
theorem get?_byId_iff {doc : SchemaDoc} (h : (predIds doc).Nodup) {id : String} {p : PredicateDoc} :
    Dict.get? (byId doc) id = some p ↔ p ∈ doc.predicates ∧ p.predId = id := by
  refine ⟨of_byId, ?_⟩
  rintro ⟨hp, rfl⟩
  have hkeys : (Dict.keys (doc.predicates.map fun p => (p.predId, p))).Nodup := by
    rw [Dict.keys, List.map_map]
    exact h
  have hmem : (p.predId, p) ∈ doc.predicates.map fun p => (p.predId, p) :=
    List.mem_map_of_mem hp
  rw [byId, Dict.get?_update hkeys, (Dict.get?_eq_some_iff hkeys).mpr hmem]
  rfl

/-! ### The loops -/

theorem duplicateIds_eq_nil : ∀ {ids seen : List String},
    duplicateIds seen ids = [] ↔ ids.Nodup ∧ ∀ id ∈ ids, id ∉ seen := by
  intro ids
  induction ids with
  | nil => simp [duplicateIds]
  | cons id rest ih =>
    intro seen
    unfold duplicateIds
    by_cases hid : id ∈ seen
    · simp [hid]
    · rw [if_neg hid, ih, List.nodup_cons]
      constructor
      · rintro ⟨hnodup, hout⟩
        refine ⟨⟨fun hmem => hout id hmem List.mem_cons_self, hnodup⟩, ?_⟩
        intro x hx hseen
        rcases List.mem_cons.mp hx with rfl | hx
        · exact hid hseen
        · exact hout x hx (List.mem_cons_of_mem _ hseen)
      · rintro ⟨⟨hnew, hnodup⟩, hout⟩
        refine ⟨hnodup, ?_⟩
        intro x hx hseen
        rcases List.mem_cons.mp hseen with rfl | hseen
        · exact hnew hx
        · exact hout x (List.mem_cons_of_mem _ hx) hseen

theorem each_rejectDuplicate {current : List (String × PredicateDoc)} {ids : List String} :
    each (rejectDuplicate current) ids = .ok () ↔ ids = [] := by
  cases ids with
  | nil => simp [each]
  | cons id rest =>
    have herror : rejectDuplicate current id ≠ .ok () := by
      unfold rejectDuplicate
      split <;> simp
    simp [each_ok_iff, herror]

theorem checkEntity_ok {candidate : SchemaDoc} {es : List (String × EntityDoc)}
    (h : entitiesByType candidate = .ok es) {p : String × EntityDoc} :
    checkEntity es p = .ok () ↔
      ∃ e' ∈ candidate.entities, e'.entityType = p.1 ∧ p.2.identityFields = e'.identityFields := by
  unfold checkEntity
  cases hget : Dict.get? es p.1 with
  | none =>
    simp only [reduceCtorEq, false_iff, not_exists, not_and]
    intro e' he' htype
    rw [(get?_entities_iff h).mpr ⟨he', htype⟩] at hget
    cases hget
  | some e =>
    obtain ⟨he, htype⟩ := (get?_entities_iff h).mp hget
    simp only [requireStore, require_ok_iff, decide_eq_true_eq]
    constructor
    · intro hfields
      exact ⟨e, he, htype, hfields⟩
    · rintro ⟨e', he', htype', hfields⟩
      have hget' := (get?_entities_iff h).mpr ⟨he', htype'⟩
      rw [hget, Option.some.injEq] at hget'
      rw [hget', hfields]

theorem checkExistingPredicate_ok {candidate : SchemaDoc} (h : (predIds candidate).Nodup)
    {id : String} {p : PredicateDoc} (hid : p.predId = id) :
    checkExistingPredicate (byId candidate) (id, p) = .ok () ↔
      ∃ q ∈ candidate.predicates, predicateStableProjection p = predicateStableProjection q := by
  subst hid
  unfold checkExistingPredicate
  cases hget : Dict.get? (byId candidate) p.predId with
  | none =>
    simp only [reduceCtorEq, false_iff, not_exists, not_and]
    intro q hq hstable
    have hid : q.predId = p.predId := congrArg StableProjection.predId hstable.symm
    rw [(get?_byId_iff h).mpr ⟨hq, hid⟩] at hget
    cases hget
  | some q =>
    obtain ⟨hq, hid⟩ := of_byId hget
    simp only [requireStore, bind_unit_ok_iff, require_ok_iff, decide_eq_true_eq]
    constructor
    · intro hchecks
      exact ⟨q, hq, hchecks.2⟩
    · rintro ⟨q', hq', hstable⟩
      have hid' : q'.predId = p.predId := congrArg StableProjection.predId hstable.symm
      have hget' := (get?_byId_iff h).mpr ⟨hq', hid'⟩
      rw [hget, Option.some.injEq] at hget'
      rw [hget']
      refine ⟨?_, hstable⟩
      -- the targets are part of the stable projection
      have hrel := congrArg StableProjection.relationshipType hstable
      have hfrom := congrArg StableProjection.fromEntityType hstable
      have hto := congrArg StableProjection.toEntityType hstable
      simp only [predicateStableProjection] at hrel hfrom hto
      rw [relationshipTargets, relationshipTargets, hrel, hfrom, hto]

theorem checkNewPredicate_ok {current candidate : SchemaDoc}
    {es es' : List (String × EntityDoc)} (h : entitiesByType current = .ok es)
    (h' : entitiesByType candidate = .ok es') {id : String} {q : PredicateDoc}
    (hid : q.predId = id) :
    checkNewPredicate (byId current) es es' (id, q) = .ok () ↔ (q.predId ∉ predIds current →
      ∃ owner, q.ownerType = some owner ∧ owner ≠ "" ∧
        ((owner ∈ types candidate ∧ owner ∉ types current) ∨
          (owner ∈ types current ∧ q.identityField ≠ some true ∧ q.entityExists ≠ some true ∧
            q.relationshipType = none))) := by
  subst hid
  unfold checkNewPredicate
  by_cases hold : q.predId ∈ predIds current
  · rw [if_pos (has_byId_iff.mpr hold)]
    simp [hold]
  · rw [if_neg (fun hhas => hold (has_byId_iff.mp hhas))]
    simp only [hold, not_false_eq_true, forall_const]
    cases howner : q.ownerType.filter (· ≠ "") with
    | none =>
      simp only [reduceCtorEq, false_iff, not_exists]
      rintro owner ⟨hsome, hne, _⟩
      rw [Option.filter_eq_none_iff] at howner
      exact howner owner hsome (by simpa using hne)
    | some owner =>
      obtain ⟨hsome, hne⟩ := Option.filter_eq_some_iff.mp howner
      have hcandidate := has_entities_iff h' (t := owner)
      have hcurrent := has_entities_iff h (t := owner)
      simp only [hsome, Option.some.injEq, exists_eq_left']
      by_cases hin : owner ∈ types current
      · have hnot : ¬(Dict.has es' owner && !Dict.has es owner) = true := by
          simp [hcurrent.mpr hin]
        rw [if_neg hnot]
        simp only [requireStore, bind_unit_ok_iff, require_ok_iff, hcurrent.mpr hin, hin,
          decide_eq_true_eq, Option.isNone_iff_eq_none]
        have hne : owner ≠ "" := by simpa using hne
        simp [hne]
      · have hnot : Dict.has es owner = false := by
          rw [← Bool.not_eq_true]
          intro hhas
          exact hin (hcurrent.mp hhas)
        cases hhas : Dict.has es' owner with
        | true => simpa [hnot, hcandidate.mp hhas, hin] using hne
        | false =>
          have hout : owner ∉ types candidate := by
            intro hmem
            rw [hcandidate.mpr hmem] at hhas
            cases hhas
          simp [hnot, hin, hout, requireStore, require]

/-! ### Acceptance -/

/-- **What is accepted**: two documents in order that extend one another. -/
theorem accepts_iff {current candidate : SchemaDoc} :
    Accepts current candidate ↔
      Readable current ∧ Readable candidate ∧ Extends current candidate := by
  unfold Accepts validateAdditiveSchemaExtension
  simp only [bind_ok_iff]
  constructor
  · rintro ⟨_, hcur, _, hcand, es, hes, es', hes', _, hentities, ps, hps, ps', hps', _, hids, _,
      hexisting, hadded⟩
    cases predicatesById_eq hps
    cases predicatesById_eq hps'
    refine ⟨⟨hcur, ⟨es, hes⟩, ⟨_, hps⟩⟩, ⟨hcand, ⟨es', hes'⟩, ⟨_, hps'⟩⟩, ?_⟩
    -- the check of duplicates is given the sorted ids that occur twice
    have hnodup : (predIds candidate).Nodup := by
      rw [each_rejectDuplicate] at hids
      have hnone : ∀ id, id ∉ duplicateIds [] (predIds candidate) := by
        intro id hid
        have hsorted := (List.mem_insertionSort (· ≤ ·)).mpr (List.mem_dedup.mpr hid)
        rw [predIds, hids] at hsorted
        cases hsorted
      exact (duplicateIds_eq_nil.mp (List.eq_nil_iff_forall_not_mem.mpr hnone)).1
    rw [each_ok_iff] at hentities hexisting hadded
    refine ⟨?_, hnodup, ?_, ?_⟩
    · intro e he
      exact (checkEntity_ok hes').mp (hentities (e.entityType, e) ((mem_entities_iff hes).mpr ⟨he, rfl⟩))
    · intro id p hp
      exact (checkExistingPredicate_ok hnodup (of_byId hp).2).mp
        (hexisting (id, p) (Dict.mem_of_get? hp))
    · intro q hq hnew
      have hmem := Dict.mem_of_get? ((get?_byId_iff hnodup).mpr ⟨hq, rfl⟩)
      exact (checkNewPredicate_ok hes hes' rfl).mp (hadded _ hmem) hnew
  · rintro ⟨⟨hcur, ⟨es, hes⟩, ⟨ps, hps⟩⟩, ⟨hcand, ⟨es', hes'⟩, ⟨ps', hps'⟩⟩, hext⟩
    cases predicatesById_eq hps
    cases predicatesById_eq hps'
    have hmem : ∀ {doc : SchemaDoc} {id : String} {p : PredicateDoc}, (id, p) ∈ byId doc →
        Dict.get? (byId doc) id = some p := by
      intro doc id p hp
      exact (Dict.get?_eq_some_iff (Dict.nodup_keys_update (by simp [Dict.keys]) _)).mpr hp
    refine ⟨(), hcur, (), hcand, es, hes, es', hes', (), ?_, _, hps, _, hps', (), ?_, (), ?_, ?_⟩
    · rw [each_ok_iff]
      intro p hp
      obtain ⟨he, htype⟩ := (mem_entities_iff hes).mp hp
      rw [checkEntity_ok hes', ← htype]
      exact hext.entities p.2 he
    · rw [each_rejectDuplicate]
      have hdup : duplicateIds [] (candidate.predicates.map (·.predId)) = [] :=
        duplicateIds_eq_nil.mpr ⟨hext.ids, by simp⟩
      rw [hdup]
      rfl
    · rw [each_ok_iff]
      rintro ⟨id, p⟩ hp
      rw [checkExistingPredicate_ok hext.ids (of_byId (hmem hp)).2]
      exact hext.existing id p (hmem hp)
    · rw [each_ok_iff]
      rintro ⟨id, q⟩ hq
      obtain ⟨hdoc, hid⟩ := of_byId (hmem hq)
      rw [checkNewPredicate_ok hes hes' hid]
      exact hext.added q hdoc

/-! ## Chains -/

theorem Extends.types_subset {current candidate : SchemaDoc} (h : Extends current candidate) :
    types current ⊆ types candidate := by
  intro t ht
  obtain ⟨e, he, rfl⟩ := List.mem_map.mp ht
  obtain ⟨e', he', htype, _⟩ := h.entities e he
  rw [← htype]
  exact List.mem_map_of_mem he'

/-- **Extensions compose.** -/
theorem Extends.trans {a b c : SchemaDoc} (hab : Extends a b) (hbc : Extends b c) : Extends a c where
  entities := by
    intro e he
    obtain ⟨e', he', htype, hfields⟩ := hab.entities e he
    obtain ⟨e'', he'', htype', hfields'⟩ := hbc.entities e' he'
    exact ⟨e'', he'', htype'.trans htype, hfields.trans hfields'⟩
  ids := hbc.ids
  existing := by
    intro id p hp
    obtain ⟨q, hq, hstable⟩ := hab.existing id p hp
    obtain ⟨r, hr, hstable'⟩ := hbc.existing _ q ((get?_byId_iff hab.ids).mpr ⟨hq, rfl⟩)
    exact ⟨r, hr, hstable.trans hstable'⟩
  added := by
    intro r hr hnew
    by_cases hmid : r.predId ∈ predIds b
    · -- the predicate was added by the first extension, and kept by the second
      obtain ⟨q, hq, hid⟩ := List.mem_map.mp hmid
      obtain ⟨r', hr', hstable⟩ := hbc.existing _ q ((get?_byId_iff hab.ids).mpr ⟨hq, rfl⟩)
      have hid' : r'.predId = r.predId := (congrArg StableProjection.predId hstable.symm).trans hid
      obtain rfl : r' = r := eq_of_predId hbc.ids hr' hr hid'
      rw [← hid] at hnew
      obtain ⟨owner, howner, hne, hcase⟩ := hab.added q hq hnew
      have hownerEq : q.ownerType = r'.ownerType := congrArg StableProjection.ownerType hstable
      have hidentity : q.identityField = r'.identityField :=
        congrArg StableProjection.isIdentityField hstable
      have hexists : q.entityExists = r'.entityExists :=
        congrArg StableProjection.isEntityExists hstable
      have hrel : q.relationshipType = r'.relationshipType :=
        congrArg StableProjection.relationshipType hstable
      rw [hownerEq] at howner
      rw [hidentity, hexists, hrel] at hcase
      refine ⟨owner, howner, hne, ?_⟩
      rcases hcase with ⟨hin, hout⟩ | hold
      · exact .inl ⟨hbc.types_subset hin, hout⟩
      · exact .inr hold
    · obtain ⟨owner, howner, hne, hcase⟩ := hbc.added r hr hmid
      refine ⟨owner, howner, hne, ?_⟩
      rcases hcase with ⟨hin, hout⟩ | ⟨hin, hrest⟩
      · exact .inl ⟨hin, fun hold => hout (hab.types_subset hold)⟩
      · by_cases hold : owner ∈ types a
        · exact .inr ⟨hold, hrest⟩
        · exact .inl ⟨hbc.types_subset hin, hold⟩

/-- **Acceptance is transitive.** -/
theorem Accepts.trans {a b c : SchemaDoc} (hab : Accepts a b) (hbc : Accepts b c) : Accepts a c := by
  rw [accepts_iff] at hab hbc ⊢
  exact ⟨hab.1, hbc.2.1, hab.2.2.trans hbc.2.2⟩

end FactGraph.Schema
