import FactGraph.Entity.Operations

/-!
# Building the index

`ensure_schema_ir` in `core/schema/schema_ir.py` and `build_schema_index` in
`application/schema_runtime.py`: the index of a schema document, and what it has to do with the
predicates the projector reads from the same document (`Indexed`).

A document that JSON can spell but the checks of shape refuse is not represented, and the two flags
of a predicate are Booleans. The version, the projection section, the metadata policies and the
`repr` texts of entities and predicates are left out, and so is the digest.
-/

namespace FactGraph.Entity

open Protocol Store Check

/-! ## Documents -/

/-- An identity field of an entity. -/
structure IdentityFieldDoc where
  name : String
  typeDomain : String
  enumValues : Option (List Datum) := none
  pattern : Option String := none
  repr : Option String := none
  deriving DecidableEq

/-- An entity of a schema document. -/
structure EntityDoc where
  entityType : String
  identityFields : List IdentityFieldDoc

/-- An element of `arg_specs`. -/
structure ArgSpec where
  name : String
  typeDomain : String
  deriving DecidableEq

/-- A predicate of a schema document. A field that is missing or has another type than the code asks
for is absent; `entityExists` and `identityField` are `is_entity_exists` and `is_identity_field`. -/
structure PredicateDoc where
  predId : String
  ownerType : Option String := none
  pyFieldName : Option String := none
  cardinality : Option String
  arity : Option Int := none
  argSpecs : List ArgSpec
  groupKeyIndexes : List Int
  entityExists : Option Bool := none
  identityField : Option Bool := none
  relationshipType : Option String := none
  fromEntityType : Option String := none
  toEntityType : Option String := none
  enumValues : Option (List Datum) := none
  pattern : Option String := none
  isDerived : Bool := false
  kind : Option String := none
  sourceKind : Option String := none

structure SchemaDoc where
  entities : List EntityDoc
  predicates : List PredicateDoc

/-- `bool(pred.get("is_entity_exists", False))`. -/
def PredicateDoc.isEntityExists (p : PredicateDoc) : Bool := p.entityExists.getD false

/-- `bool(pred.get("is_identity_field", False))`. -/
def PredicateDoc.isIdentityField (p : PredicateDoc) : Bool := p.identityField.getD false

theorem PredicateDoc.isEntityExists_iff {p : PredicateDoc} :
    p.isEntityExists = true ↔ p.entityExists = some true := by
  unfold PredicateDoc.isEntityExists
  cases p.entityExists <;> simp

theorem PredicateDoc.isIdentityField_iff {p : PredicateDoc} :
    p.isIdentityField = true ↔ p.identityField = some true := by
  unfold PredicateDoc.isIdentityField
  cases p.identityField <;> simp

/-- The `IdentityFieldInfo` of a field. -/
def IdentityFieldDoc.info (f : IdentityFieldDoc) : IdentityFieldInfo := ⟨f.name, f.typeDomain⟩

/-- What the projector reads of a predicate. -/
def PredicateDoc.view (p : PredicateDoc) : View.SchemaPred where
  predId := some p.predId
  cardinality := p.cardinality.getD "single"
  isEntityExists := p.isEntityExists
  isIdentityField := p.isIdentityField
  ownerType := p.ownerType
  pyFieldName := p.pyFieldName
  groupKeyIndexes := some (p.groupKeyIndexes.map some)

/-- What the projector reads of an entity. -/
def EntityDoc.view (e : EntityDoc) : View.SchemaEntity where
  entityType := some e.entityType
  identityFields := some (e.identityFields.map fun f => some ⟨some f.name, some f.typeDomain⟩)

/-- What the projector reads of a document. -/
def SchemaDoc.view (doc : SchemaDoc) : View.SchemaIr where
  predicates := some (doc.predicates.map fun p => some p.view)
  entities := some (doc.entities.map fun e => some e.view)

/-! ## `ensure_schema_ir` -/

def requireSchemaIr (c : Bool) (message : String) : Except Fault Unit :=
  require c (.other (.valueError message))

/-- The checks of an identity field. -/
def validateIdentityField (index : Nat) (p : IdentityFieldDoc × Nat) : Except Fault Unit := do
  let ctx := s!"entities[{index}].identity_fields[{p.2}]"
  requireSchemaIr (p.1.name ≠ "") s!"{ctx}.name must be non-empty string"
  requireSchemaIr (tagCode? p.1.typeDomain).isSome s!"{ctx}.type_domain is invalid: {p.1.typeDomain}"

/-- One turn of `_validate_entities`. -/
def validateEntity (p : EntityDoc × Nat) : Except Fault Unit := do
  requireSchemaIr (p.1.entityType ≠ "") s!"entities[{p.2}].entity_type must be non-empty string"
  each (validateIdentityField p.2) p.1.identityFields.zipIdx

/-- `_validate_group_key_indexes`, from the position `i` on. -/
def validateGroupKeyIndexes (argCount : Nat) (ctx : String) (i : Nat) (last : Int) :
    List Int → Except Fault Unit
  | [] => .ok ()
  | idx :: rest => do
      requireSchemaIr (0 ≤ idx) s!"{ctx}.group_key_indexes[{i}] must be 0-based"
      requireSchemaIr (idx < argCount)
        s!"{ctx}.group_key_indexes[{i}] out of range for arg_specs size {argCount}"
      requireSchemaIr (last < idx) s!"{ctx}.group_key_indexes must be strictly ascending"
      validateGroupKeyIndexes argCount ctx (i + 1) idx rest

/-- The checks of an element of `arg_specs`. -/
def validateArgSpec (ctx : String) (p : ArgSpec × Nat) : Except Fault Unit := do
  requireSchemaIr (p.1.name ≠ "") s!"{ctx}.arg_specs[{p.2}].name must be non-empty string"
  requireSchemaIr (tagCode? p.1.typeDomain).isSome
    s!"{ctx}.arg_specs[{p.2}].type_domain is invalid: {p.1.typeDomain}"

/-- One turn of `_validate_predicates`. -/
def validatePredicate (p : PredicateDoc × Nat) : Except Fault Unit := do
  let ctx := s!"predicates[{p.2}]"
  requireSchemaIr (p.1.predId ≠ "") s!"{ctx}.pred_id must be non-empty string"
  requireSchemaIr (!p.1.argSpecs.isEmpty) s!"{ctx}.arg_specs must be non-empty list"
  each (validateArgSpec ctx) p.1.argSpecs.zipIdx
  validateGroupKeyIndexes p.1.argSpecs.length ctx 0 (-1) p.1.groupKeyIndexes

/-- `ensure_schema_ir`. -/
def ensureSchemaIr (doc : SchemaDoc) : Except Fault Unit := do
  each validateEntity doc.entities.zipIdx
  each validatePredicate doc.predicates.zipIdx

/-! ## `build_schema_index` -/

/-- The `PredicateInfo` of a predicate. -/
def PredicateDoc.info (p : PredicateDoc) (ownerType cardinality : String) : PredicateInfo where
  predId := p.predId
  ownerType := ownerType
  pyFieldName := p.pyFieldName
  cardinality := cardinality
  valueTypeDomain := p.argSpecs[1]?.map (·.typeDomain)
  isEntityExists := p.isEntityExists
  isIdentityField := p.isIdentityField
  enumValues := p.enumValues
  pattern := p.pattern

/-- The dictionaries the loop over the predicates fills. -/
structure PredicateTables where
  predicatesById : List (String × PredicateInfo) := []
  fieldPredicates : List ((String × String) × PredicateInfo) := []
  existsByEntity : List (String × String) := []
  identityPredicates : List ((String × String) × PredicateInfo) := []

/-- `repr(cardinality)`. -/
def reprCardinality (host : Host) (cardinality : Option String) : String :=
  (cardinality.map host.reprText).getD "None"

namespace PredicateTables

/-- `identity_predicates_by_entity.get(entity_type, {})`. -/
def identityPredicatesOf (t : PredicateTables) (entityType : String) :
    List (String × PredicateInfo) :=
  (t.identityPredicates.filter fun p => p.1.1 = entityType).map fun p => (p.1.2, p.2)

/-- A predicate under its field. -/
def addField (t : PredicateTables) (info : PredicateInfo) : Except Fault PredicateTables :=
  match info.pyFieldName with
  | none => .ok t
  | some field => do
      require (!Dict.has t.fieldPredicates (info.ownerType, field)) (.schemaResolution
        { code := "DUPLICATE_FIELD_PREDICATE"
          message := s!"duplicate field predicate for {info.ownerType}.{field}"
          path := ["predicates", info.predId] })
      .ok { t with fieldPredicates := Dict.set t.fieldPredicates (info.ownerType, field) info }

/-- An existence predicate under its owner. -/
def addExists (t : PredicateTables) (info : PredicateInfo) : Except Fault PredicateTables :=
  if info.isEntityExists then do
    require (!Dict.has t.existsByEntity info.ownerType) (.schemaResolution
      { code := "DUPLICATE_EXISTS_PREDICATE"
        message := s!"multiple exists predicates for {info.ownerType}"
        path := ["predicates", info.predId] })
    .ok { t with existsByEntity := Dict.set t.existsByEntity info.ownerType info.predId }
  else .ok t

/-- An identity predicate under its field. -/
def addIdentity (t : PredicateTables) (info : PredicateInfo) : Except Fault PredicateTables :=
  match info.isIdentityField, info.pyFieldName with
  | true, some field => do
      require (!Dict.has t.identityPredicates (info.ownerType, field)) (.schemaResolution
        { code := "DUPLICATE_IDENTITY_PREDICATE"
          message := s!"multiple identity predicates for {info.ownerType}.{field}"
          path := ["predicates", info.predId] })
      .ok { t with identityPredicates := Dict.set t.identityPredicates (info.ownerType, field) info }
  | _, _ => .ok t

/-- One turn of the loop over the predicates. -/
def add (host : Host) (t : PredicateTables) (p : PredicateDoc) : Except Fault PredicateTables := do
  require (!Dict.has t.predicatesById p.predId) (.schemaResolution
    { code := "DUPLICATE_PREDICATE_ID"
      message := s!"duplicate pred_id in schema_ir: {p.predId}"
      path := ["predicates", p.predId] })
  match p.ownerType.filter (· ≠ "") with
  | none =>
      schemaError "INVALID_PREDICATE_OWNER" s!"predicate {p.predId} is missing owner_type"
        ["predicates", p.predId, "owner_type"]
  | some ownerType =>
      match p.cardinality.filter fun c => c = "single" || c = "multi" with
      | none =>
          schemaError "INVALID_PREDICATE_CARDINALITY"
            (s!"predicate {p.predId} has invalid cardinality: " ++
              reprCardinality host p.cardinality)
            ["predicates", p.predId, "cardinality"]
      | some cardinality => do
          let info := p.info ownerType cardinality
          require (info.isEntityExists || info.pyFieldName.isNone || info.valueTypeDomain.isSome)
            (.schemaResolution
              { code := "INVALID_PREDICATE_VALUE_DOMAIN"
                message := s!"predicate {p.predId} is missing value type_domain"
                path := ["predicates", p.predId, "arg_specs"] })
          let t ← { t with
            predicatesById := Dict.set t.predicatesById p.predId info }.addField info
          let t ← t.addExists info
          t.addIdentity info

end PredicateTables

/-- One turn of the loop over the entities. -/
def addEntity (out : List (String × EntityDoc)) (e : EntityDoc) :
    Except Fault (List (String × EntityDoc)) := do
  require (!Dict.has out e.entityType) (.schemaResolution
    { code := "DUPLICATE_ENTITY_TYPE"
      message := s!"duplicate entity_type in schema_ir: {e.entityType}"
      path := ["entities", e.entityType] })
  .ok (Dict.set out e.entityType e)

/-- An entity with its existence predicate. -/
def normalizedEntity (host : Host) (t : PredicateTables) (p : String × EntityDoc) :
    Except Fault (String × EntityTypeInfo) :=
  match (Dict.get? t.existsByEntity p.1).filter (· ≠ "") with
  | none =>
      schemaError "MISSING_EXISTS_PREDICATE" s!"missing exists predicate for {p.1}" ["entities", p.1]
  | some existsPredicateId => do
      let missing := (p.2.identityFields.map (·.name)).filter fun name =>
        !Dict.has t.identityPredicates (p.1, name)
      require missing.isEmpty (.schemaResolution
        { code := "MISSING_IDENTITY_PREDICATE"
          message := s!"missing identity predicates for {p.1}: {reprNames host missing}"
          path := ["entities", p.1, "identity_fields"] })
      .ok (p.1, ⟨p.2.entityType, p.2.identityFields.map (·.info), existsPredicateId,
        t.identityPredicatesOf p.1⟩)

/-- `build_schema_index`. -/
def buildSchemaIndex (host : Host) (doc : SchemaDoc) : Except Fault SchemaIndex := do
  ensureSchemaIr doc
  let entities ← doc.entities.foldlM addEntity []
  let t ← doc.predicates.foldlM (PredicateTables.add host) {}
  let normalized ← mapOk (normalizedEntity host t) entities
  .ok {
    entities := normalized
    fieldPredicates := t.fieldPredicates
    predicatesById := t.predicatesById
    identityPredIds := (t.predicatesById.filter fun p => p.2.isIdentityField).map (·.2.predId)
    existsPredIds := (t.predicatesById.filter fun p => p.2.isEntityExists).map (·.2.predId) }

/-! ## What the index says of its document -/

/-- The predicates `ps` were read into the tables. -/
structure PredicateTables.Read (ps : List PredicateDoc) (t : PredicateTables) : Prop where
  ids : (ps.map (·.predId)).Nodup
  byId : ∀ id, id ∈ Dict.keys t.predicatesById ↔ id ∈ ps.map (·.predId)
  checked : ∀ p ∈ ps, ∃ owner cardinality, p.ownerType = some owner ∧
    p.cardinality = some cardinality ∧ (cardinality = "single" ∨ cardinality = "multi")
  fields : ∀ owner field info, Dict.get? t.fieldPredicates (owner, field) = some info ↔
    ∃ p ∈ ps, ∃ cardinality, p.ownerType = some owner ∧ p.pyFieldName = some field ∧
      p.cardinality = some cardinality ∧ info = p.info owner cardinality
  existence : ∀ owner id, Dict.get? t.existsByEntity owner = some id ↔
    ∃ p ∈ ps, p.isEntityExists = true ∧ p.ownerType = some owner ∧ p.predId = id
  identity : ∀ owner field info, ((owner, field), info) ∈ t.identityPredicates →
    ∃ p ∈ ps, p.isIdentityField = true ∧ p.ownerType = some owner ∧ p.pyFieldName = some field ∧
      ∃ cardinality, p.cardinality = some cardinality ∧ info = p.info owner cardinality
  infos : ∀ id info, Dict.get? t.predicatesById id = some info →
    ∃ p ∈ ps, p.predId = id ∧ ∃ owner cardinality, p.ownerType = some owner ∧
      p.cardinality = some cardinality ∧ info = p.info owner cardinality

namespace PredicateTables

theorem addField_ok {t t' : PredicateTables} {info : PredicateInfo} (h : t.addField info = .ok t') :
    t' = { t with fieldPredicates := t'.fieldPredicates } ∧
      ((info.pyFieldName = none ∧ t'.fieldPredicates = t.fieldPredicates) ∨
        ∃ field, info.pyFieldName = some field ∧
          (info.ownerType, field) ∉ Dict.keys t.fieldPredicates ∧
          t'.fieldPredicates = Dict.set t.fieldPredicates (info.ownerType, field) info) := by
  unfold addField at h
  cases hfield : info.pyFieldName with
  | none =>
    rw [hfield] at h
    cases h
    exact ⟨rfl, .inl ⟨rfl, rfl⟩⟩
  | some field =>
    rw [hfield] at h
    obtain ⟨hnew, h⟩ := bind_unit_ok_iff.mp h
    cases h
    refine ⟨rfl, .inr ⟨field, rfl, ?_, rfl⟩⟩
    rw [← Dict.has_iff]
    simpa using hnew

theorem addExists_ok {t t' : PredicateTables} {info : PredicateInfo} (h : t.addExists info = .ok t') :
    t' = { t with existsByEntity := t'.existsByEntity } ∧
      ((info.isEntityExists = false ∧ t'.existsByEntity = t.existsByEntity) ∨
        (info.isEntityExists = true ∧ info.ownerType ∉ Dict.keys t.existsByEntity ∧
          t'.existsByEntity = Dict.set t.existsByEntity info.ownerType info.predId)) := by
  unfold addExists at h
  split at h
  next hexists =>
    obtain ⟨hnew, h⟩ := bind_unit_ok_iff.mp h
    cases h
    refine ⟨rfl, .inr ⟨hexists, ?_, rfl⟩⟩
    rw [← Dict.has_iff]
    simpa using hnew
  next hexists =>
    cases h
    exact ⟨rfl, .inl ⟨by simpa using hexists, rfl⟩⟩

theorem addIdentity_ok {t t' : PredicateTables} {info : PredicateInfo}
    (h : t.addIdentity info = .ok t') :
    t' = { t with identityPredicates := t'.identityPredicates } ∧
      (t'.identityPredicates = t.identityPredicates ∨ ∃ field, info.isIdentityField = true ∧
        info.pyFieldName = some field ∧
        t'.identityPredicates = Dict.set t.identityPredicates (info.ownerType, field) info) := by
  unfold addIdentity at h
  split at h
  next field hidentity hfield =>
    obtain ⟨_, h⟩ := bind_unit_ok_iff.mp h
    cases h
    exact ⟨rfl, .inr ⟨field, hidentity, hfield, rfl⟩⟩
  next =>
    cases h
    exact ⟨rfl, .inl rfl⟩

/-- **One turn of the loop.** -/
theorem Read.add {host : Host} {ps : List PredicateDoc} {t t' : PredicateTables} (h : Read ps t)
    {p : PredicateDoc} (ht : t.add host p = .ok t') : Read (ps ++ [p]) t' := by
  unfold PredicateTables.add at ht
  obtain ⟨hnew, ht⟩ := bind_unit_ok_iff.mp ht
  split at ht
  next => cases ht
  next owner howner =>
    split at ht
    next => cases ht
    next cardinality hcardinality =>
      obtain ⟨_, ht⟩ := bind_unit_ok_iff.mp ht
      obtain ⟨t₁, h₁, ht⟩ := bind_ok_iff.mp ht
      obtain ⟨t₂, h₂, h₃⟩ := bind_ok_iff.mp ht
      obtain ⟨e₁, hfields⟩ := addField_ok h₁
      obtain ⟨e₂, hexists⟩ := addExists_ok h₂
      obtain ⟨e₃, hidentity⟩ := addIdentity_ok h₃
      obtain ⟨howner, _⟩ := Option.filter_eq_some_iff.mp howner
      obtain ⟨hcardinality, hvalid⟩ := Option.filter_eq_some_iff.mp hcardinality
      have hmember : ∀ q, q ∈ ps ++ [p] ↔ q ∈ ps ∨ q = p := by simp
      have hunknown : p.predId ∉ ps.map (·.predId) := by
        rw [← h.byId, ← Dict.has_iff]
        simpa using hnew
      have hbyId : t'.predicatesById = Dict.set t.predicatesById p.predId (p.info owner cardinality) := by
        rw [e₃, e₂, e₁]
      have hfieldsOf : t'.fieldPredicates = t₁.fieldPredicates := by rw [e₃, e₂]
      have hexistsOf : t'.existsByEntity = t₂.existsByEntity := by rw [e₃]
      refine ⟨?_, ?_, ?_, ?_, ?_, ?_, ?_⟩
      · rw [List.map_append, List.nodup_append]
        refine ⟨h.ids, by simp, ?_⟩
        intro a ha b hb hab
        rw [List.mem_singleton.mp hb] at hab
        rw [hab] at ha
        exact hunknown ha
      · intro id
        rw [hbyId, Dict.mem_keys_set, h.byId, List.map_append, List.mem_append, or_comm]
        simp
      · intro q hq
        rcases (hmember q).mp hq with hq | rfl
        · exact h.checked q hq
        · exact ⟨owner, cardinality, howner, hcardinality, by simpa using hvalid⟩
      · intro owner' field info
        rw [hfieldsOf]
        have hold := h.fields owner' field info
        rcases hfields with ⟨hnone, hsame⟩ | ⟨name, hname, hfree, hset⟩
        · -- a predicate without a field is under no field
          rw [hsame, hold]
          constructor
          · rintro ⟨q, hq, hrest⟩
            exact ⟨q, (hmember q).mpr (.inl hq), hrest⟩
          · rintro ⟨q, hq, c, ho, hf, hrest⟩
            rcases (hmember q).mp hq with hq | rfl
            · exact ⟨q, hq, c, ho, hf, hrest⟩
            · have hnone' : q.pyFieldName = none := hnone
              rw [hnone'] at hf
              cases hf
        · have hname' : p.pyFieldName = some name := hname
          have hset' : t₁.fieldPredicates =
              Dict.set t.fieldPredicates (owner, name) (p.info owner cardinality) := hset
          rw [hset', Dict.get?_set]
          by_cases hkey : (owner', field) = (owner, name)
          · cases hkey
            rw [if_pos rfl, Option.some.injEq]
            constructor
            · rintro rfl
              exact ⟨p, (hmember p).mpr (.inr rfl), cardinality, howner, hname', hcardinality, rfl⟩
            · rintro ⟨q, hq, c, ho, hf, hc, rfl⟩
              rcases (hmember q).mp hq with hq | rfl
              · have hsome := (h.fields _ _ (q.info owner c)).mpr ⟨q, hq, c, ho, hf, hc, rfl⟩
                exact absurd (Dict.mem_keys_iff.mpr ⟨_, hsome⟩) hfree
              · rw [hcardinality] at hc
                cases hc
                rfl
          · rw [if_neg hkey]
            constructor
            · intro hsome
              obtain ⟨q, hq, hrest⟩ := hold.mp hsome
              exact ⟨q, (hmember q).mpr (.inl hq), hrest⟩
            · rintro ⟨q, hq, c, ho, hf, hrest⟩
              rcases (hmember q).mp hq with hq | rfl
              · exact hold.mpr ⟨q, hq, c, ho, hf, hrest⟩
              · rw [howner] at ho
                rw [hname'] at hf
                cases ho
                cases hf
                exact absurd rfl hkey
      · intro owner' id
        have hold := h.existence owner' id
        have hbefore : t₁.existsByEntity = t.existsByEntity := by rw [e₁]
        rw [hexistsOf]
        rcases hexists with ⟨hflag, hsame⟩ | ⟨hflag, hfree, hset⟩
        · -- an ordinary predicate is no existence predicate
          rw [hsame, hbefore, hold]
          constructor
          · rintro ⟨q, hq, hrest⟩
            exact ⟨q, (hmember q).mpr (.inl hq), hrest⟩
          · rintro ⟨q, hq, hexists, hrest⟩
            rcases (hmember q).mp hq with hq | rfl
            · exact ⟨q, hq, hexists, hrest⟩
            · have hflag' : q.isEntityExists = false := hflag
              rw [hflag'] at hexists
              cases hexists
        · have hset' : t₂.existsByEntity = Dict.set t.existsByEntity owner p.predId :=
            hbefore ▸ hset
          have hfree' : owner ∉ Dict.keys t.existsByEntity := hbefore ▸ hfree
          rw [hset', Dict.get?_set]
          by_cases hkey : owner' = owner
          · subst hkey
            rw [if_pos rfl, Option.some.injEq]
            constructor
            · intro hid
              exact ⟨p, (hmember p).mpr (.inr rfl), hflag, howner, hid⟩
            · rintro ⟨q, hq, hexists, ho, hid⟩
              rcases (hmember q).mp hq with hq | rfl
              · have hsome := hold.mpr ⟨q, hq, hexists, ho, hid⟩
                exact absurd (Dict.mem_keys_iff.mpr ⟨_, hsome⟩) hfree'
              · exact hid
          · rw [if_neg hkey, hold]
            constructor
            · rintro ⟨q, hq, hrest⟩
              exact ⟨q, (hmember q).mpr (.inl hq), hrest⟩
            · rintro ⟨q, hq, hexists, ho, hid⟩
              rcases (hmember q).mp hq with hq | rfl
              · exact ⟨q, hq, hexists, ho, hid⟩
              · rw [howner] at ho
                cases ho
                exact absurd rfl hkey
      · intro owner' field info hentry
        have hback : ((owner', field), info) ∈ t.identityPredicates → ∃ q ∈ ps ++ [p],
            q.isIdentityField = true ∧ q.ownerType = some owner' ∧ q.pyFieldName = some field ∧
              ∃ c, q.cardinality = some c ∧ info = q.info owner' c := by
          intro hentry
          obtain ⟨q, hq, hrest⟩ := h.identity owner' field info hentry
          exact ⟨q, (hmember q).mpr (.inl hq), hrest⟩
        have hbefore : t₂.identityPredicates = t.identityPredicates := by rw [e₂, e₁]
        rcases hidentity with hsame | ⟨name, hflag, hname, hset⟩
        · rw [hsame, hbefore] at hentry
          exact hback hentry
        · rw [hset, hbefore] at hentry
          rcases Dict.mem_set hentry with hold | hnewEntry
          · exact hback hold
          · cases hnewEntry
            exact ⟨p, (hmember p).mpr (.inr rfl), hflag, howner, hname, cardinality, hcardinality,
              rfl⟩
      · intro id info hget
        rw [hbyId, Dict.get?_set] at hget
        split at hget
        next hid =>
          cases hget
          exact ⟨p, (hmember p).mpr (.inr rfl), hid.symm, owner, cardinality, howner, hcardinality,
            rfl⟩
        next =>
          obtain ⟨q, hq, hrest⟩ := h.infos id info hget
          exact ⟨q, (hmember q).mpr (.inl hq), hrest⟩

theorem Read.run {host : Host} : ∀ (more ps : List PredicateDoc) {t t' : PredicateTables},
    Read ps t → more.foldlM (PredicateTables.add host) t = .ok t' → Read (ps ++ more) t' := by
  intro more
  induction more with
  | nil =>
    intro ps t t' h hfold
    cases hfold
    rw [List.append_nil]
    exact h
  | cons p more ih =>
    intro ps t t' h hfold
    rw [List.foldlM_cons] at hfold
    obtain ⟨t₁, hadd, hfold⟩ := bind_ok_iff.mp hfold
    have hrun := ih (ps ++ [p]) (h.add hadd) hfold
    rwa [List.append_assoc] at hrun

theorem read_nil : Read [] {} where
  ids := List.nodup_nil
  byId := by simp [Dict.keys]
  checked := by simp
  fields := by simp
  existence := by simp
  identity := by simp
  infos := by simp

end PredicateTables

/-- What a document says of one of its entities when the index is built. -/
structure EntityDoc.Declared (predicates : List PredicateDoc) (e : EntityDoc) : Prop where
  existence : ∃ p ∈ predicates, p.isEntityExists = true ∧ p.ownerType = some e.entityType
  identity : ∀ f ∈ e.identityFields, f.name ≠ "" ∧ ∃ p ∈ predicates, p.isIdentityField = true ∧
    p.ownerType = some e.entityType ∧ p.pyFieldName = some f.name

/-- What `build_schema_index` makes of a document it accepts. -/
structure Indexed (doc : SchemaDoc) (index : SchemaIndex) : Prop where
  ids : (doc.predicates.map (·.predId)).Nodup
  named : ∀ p ∈ doc.predicates, p.predId ≠ ""
  checked : ∀ p ∈ doc.predicates, ∃ owner cardinality, p.ownerType = some owner ∧
    p.cardinality = some cardinality ∧ (cardinality = "single" ∨ cardinality = "multi")
  fields : ∀ owner field info, Dict.get? index.fieldPredicates (owner, field) = some info ↔
    ∃ p ∈ doc.predicates, ∃ cardinality, p.ownerType = some owner ∧ p.pyFieldName = some field ∧
      p.cardinality = some cardinality ∧ info = p.info owner cardinality
  existence : ∀ p ∈ doc.predicates, ∀ q ∈ doc.predicates, p.isEntityExists = true →
    q.isEntityExists = true → p.ownerType = q.ownerType → p = q
  types : (doc.entities.map (·.entityType)).Nodup
  declared : ∀ e ∈ doc.entities, e.Declared doc.predicates
  entities : ∀ t info, Dict.get? index.entities t = some info →
    ∃ e ∈ doc.entities, e.entityType = t ∧ info.entityType = t ∧
      info.identityFields = e.identityFields.map (·.info) ∧
      (∃ p ∈ doc.predicates, p.isEntityExists = true ∧ p.ownerType = some t ∧
        p.predId = info.existsPredicateId) ∧
      ∀ name pred, (name, pred) ∈ info.identityPredicates → ∃ p ∈ doc.predicates,
        p.isIdentityField = true ∧ p.ownerType = some t ∧ p.pyFieldName = some name ∧
          ∃ cardinality, p.cardinality = some cardinality ∧ pred = p.info t cardinality
  infos : ∀ id info, Dict.get? index.predicatesById id = some info →
    ∃ p ∈ doc.predicates, p.predId = id ∧ ∃ owner cardinality, p.ownerType = some owner ∧
      p.cardinality = some cardinality ∧ info = p.info owner cardinality

theorem eq_of_predId {ps : List PredicateDoc} (h : (ps.map (·.predId)).Nodup) {p q : PredicateDoc}
    (hp : p ∈ ps) (hq : q ∈ ps) (hid : p.predId = q.predId) : p = q :=
  List.inj_on_of_nodup_map h hp hq hid

/-- A field has one predicate. -/
theorem Indexed.eq_of_field {doc : SchemaDoc} {index : SchemaIndex} (h : Indexed doc index)
    {p q : PredicateDoc} (hp : p ∈ doc.predicates) (hq : q ∈ doc.predicates) {field : String}
    (howner : p.ownerType = q.ownerType) (hpf : p.pyFieldName = some field)
    (hqf : q.pyFieldName = some field) : p = q := by
  obtain ⟨owner, c, hpo, hpc, _⟩ := h.checked p hp
  obtain ⟨owner', c', hqo, hqc, _⟩ := h.checked q hq
  rw [hpo, hqo, Option.some.injEq] at howner
  subst howner
  have hpi := (h.fields owner field _).mpr ⟨p, hp, c, hpo, hpf, hpc, rfl⟩
  have hqi := (h.fields owner field _).mpr ⟨q, hq, c', hqo, hqf, hqc, rfl⟩
  rw [hpi, Option.some.injEq] at hqi
  exact eq_of_predId h.ids hp hq (congrArg PredicateInfo.predId hqi)

theorem each_zipIdx {α : Type} {f : α × Nat → Except Fault Unit} {as : List α}
    (h : each f as.zipIdx = .ok ()) {a : α} (ha : a ∈ as) : ∃ i, f (a, i) = .ok () := by
  obtain ⟨i, hi, rfl⟩ := List.getElem_of_mem ha
  exact ⟨i, each_ok_iff.mp h (as[i], i) (List.mk_mem_zipIdx_iff_getElem?.mpr (by simp [hi]))⟩

/-- The loop over the entities. -/
theorem addEntities_ok : ∀ {entities : List EntityDoc} {out out' : List (String × EntityDoc)},
    (Dict.keys out).Nodup → entities.foldlM addEntity out = .ok out' →
      out' = out ++ entities.map (fun e => (e.entityType, e)) ∧ (Dict.keys out').Nodup := by
  intro entities
  induction entities with
  | nil =>
    intro out out' hout hfold
    cases hfold
    exact ⟨by simp, hout⟩
  | cons e entities ih =>
    intro out out' hout hfold
    rw [List.foldlM_cons] at hfold
    obtain ⟨out₁, hadd, hfold⟩ := bind_ok_iff.mp hfold
    obtain ⟨hnew, hadd⟩ := bind_unit_ok_iff.mp hadd
    cases hadd
    have hfree : e.entityType ∉ Dict.keys out := by
      rw [← Dict.has_iff]
      simpa using hnew
    obtain ⟨hout', hnodup⟩ := ih (Dict.nodup_keys_set hout _ _) hfold
    rw [Dict.set_of_not_mem hfree, List.append_assoc] at hout'
    exact ⟨hout', hnodup⟩

/-- An entity whose checks and whose predicates the loop over the entities accepts. -/
theorem normalizedEntity_ok {host : Host} {ps : List PredicateDoc} {t : PredicateTables}
    (ht : t.Read ps) {type : String} {e : EntityDoc} {p : String × EntityTypeInfo}
    (h : normalizedEntity host t (type, e) = .ok p) :
    p.1 = type ∧ p.2.entityType = e.entityType ∧
      p.2.identityFields = e.identityFields.map (·.info) ∧
      (∃ q ∈ ps, q.isEntityExists = true ∧ q.ownerType = some type ∧
        q.predId = p.2.existsPredicateId) ∧
      (∀ f ∈ e.identityFields, ∃ q ∈ ps, q.isIdentityField = true ∧ q.ownerType = some type ∧
        q.pyFieldName = some f.name) ∧
      p.2.identityPredicates = t.identityPredicatesOf type := by
  unfold normalizedEntity at h
  split at h
  next => cases h
  next existsPredicateId hexists =>
    obtain ⟨hmissing, h⟩ := bind_unit_ok_iff.mp h
    cases h
    obtain ⟨hexists, _⟩ := Option.filter_eq_some_iff.mp hexists
    refine ⟨rfl, rfl, rfl, (ht.existence _ _).mp hexists, ?_, rfl⟩
    intro f hf
    have hnone := require_ok_iff.mp hmissing
    rw [List.isEmpty_iff, List.filter_eq_nil_iff] at hnone
    have hhas : Dict.has t.identityPredicates (type, f.name) = true := by
      simpa using hnone f.name (List.mem_map_of_mem hf)
    obtain ⟨info, hget⟩ := Dict.mem_keys_iff.mp (Dict.has_iff.mp hhas)
    obtain ⟨q, hq, hflag, howner, hname, _⟩ := ht.identity _ _ _ (Dict.mem_of_get? hget)
    exact ⟨q, hq, hflag, howner, hname⟩

theorem indexed_of_build {host : Host} {doc : SchemaDoc} {index : SchemaIndex}
    (h : buildSchemaIndex host doc = .ok index) : Indexed doc index := by
  unfold buildSchemaIndex at h
  obtain ⟨hensure, h⟩ := bind_unit_ok_iff.mp h
  obtain ⟨entities, hentities, h⟩ := bind_ok_iff.mp h
  obtain ⟨t, ht, h⟩ := bind_ok_iff.mp h
  obtain ⟨normalized, hnormalized, h⟩ := bind_ok_iff.mp h
  cases h
  have hread := PredicateTables.Read.run doc.predicates [] PredicateTables.read_nil ht
  rw [List.nil_append] at hread
  obtain ⟨hvalidEntities, hvalidPredicates⟩ := bind_unit_ok_iff.mp hensure
  obtain ⟨hout, hnodup⟩ := addEntities_ok (by simp [Dict.keys]) hentities
  rw [List.nil_append] at hout
  -- the entities of the index are those of the document, and its tables what was read of it
  have hmemOut : ∀ e ∈ doc.entities, (e.entityType, e) ∈ entities := by
    intro e he
    rw [hout]
    exact List.mem_map_of_mem he
  refine ⟨hread.ids, ?_, hread.checked, hread.fields, ?_, ?_, ?_, ?_, hread.infos⟩
  · intro p hp
    obtain ⟨i, hi⟩ := each_zipIdx hvalidPredicates hp
    obtain ⟨hname, _⟩ := bind_unit_ok_iff.mp hi
    simpa [requireSchemaIr] using hname
  · intro p hp q hq hpe hqe howner
    obtain ⟨owner, _, hpo, _⟩ := hread.checked p hp
    have hpget := (hread.existence owner _).mpr ⟨p, hp, hpe, hpo, rfl⟩
    have hqget := (hread.existence owner _).mpr ⟨q, hq, hqe, howner ▸ hpo, rfl⟩
    rw [hpget, Option.some.injEq] at hqget
    exact eq_of_predId hread.ids hp hq hqget
  · rw [hout, Dict.keys, List.map_map] at hnodup
    exact hnodup
  · intro e he
    obtain ⟨p, _, hp⟩ := image_of_mapOk hnormalized (hmemOut e he)
    obtain ⟨_, _, _, ⟨q, hq, hexists, howner, _⟩, hidentity, _⟩ := normalizedEntity_ok hread hp
    refine ⟨⟨q, hq, hexists, howner⟩, ?_⟩
    intro f hf
    obtain ⟨i, hi⟩ := each_zipIdx hvalidEntities he
    obtain ⟨_, hi⟩ := bind_unit_ok_iff.mp hi
    obtain ⟨j, hj⟩ := each_zipIdx hi hf
    obtain ⟨hname, _⟩ := bind_unit_ok_iff.mp hj
    exact ⟨by simpa [requireSchemaIr] using hname, hidentity f hf⟩
  · intro name info hget
    have hmem : (name, info) ∈ normalized := Dict.mem_of_get? hget
    obtain ⟨⟨type, e⟩, he, hnormal⟩ := mem_of_mapOk hnormalized hmem
    rw [hout] at he
    obtain ⟨e', hdoc, hpair⟩ := List.mem_map.mp he
    cases hpair
    obtain ⟨htype, hentity, hfields, hexists, _, hpredicates⟩ := normalizedEntity_ok hread hnormal
    cases htype
    refine ⟨e, hdoc, rfl, hentity, hfields, hexists, ?_⟩
    intro field pred hpred
    rw [hpredicates] at hpred
    obtain ⟨⟨⟨owner, field'⟩, pred'⟩, hentry, hpair⟩ := List.mem_map.mp hpred
    obtain ⟨hentry, howner⟩ := List.mem_filter.mp hentry
    cases hpair
    have howner' : owner = e.entityType := by simpa using howner
    subst howner'
    exact hread.identity _ _ _ hentry

end FactGraph.Entity
