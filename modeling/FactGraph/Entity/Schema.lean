import FactGraph.Db.Commit
import FactGraph.View.Projector

/-!
# The schema index

`application/schema_runtime.py` and `application/value_validation.py`: what the write commands look
up of a schema, the references of entities, and the checks of a value before it is written.

The errors carry what `ErrorDTO` has of them: code, message and path. The documents in `details`
repeat these and the arguments of the call, and are left out.
-/

namespace FactGraph.Entity

open Protocol Store Check

/-! ## Errors -/

/-- `ErrorDTO` without its details. -/
structure ErrorDto where
  code : String
  message : String
  path : List String := []
  deriving DecidableEq

/-- What the application layer raises. -/
inductive Fault where
  | schemaResolution (dto : ErrorDto)
  | entityWrite (dto : ErrorDto)
  | other (e : StoreErr)

/-- `str(exc)`. -/
def errorText : StoreErr → String
  | .valueError msg | .typeError msg | .overflowError msg | .integrityError msg | .ledgerFormat msg
  | .ledgerHeadConflict msg | .duplicateIngestKey msg | .writeProtocol msg
  | .policyNonDeterminism msg | .viewProjection msg | .database msg => msg

/-- `_to_error_dto`. -/
def toErrorDto : Fault → ErrorDto
  | .schemaResolution dto | .entityWrite dto => dto
  | .other e => { code := "WRITE_APPLY_FAILED", message := errorText e }

/-- An error of a lower layer passes through. -/
def lift {α : Type} : Except StoreErr α → Except Fault α
  | .ok a => .ok a
  | .error e => .error (.other e)

@[simp] theorem lift_ok_iff {α : Type} {x : Except StoreErr α} {a : α} :
    lift x = .ok a ↔ x = .ok a := by
  cases x <;> simp [lift]

def schemaError {α : Type} (code message : String) (path : List String) : Except Fault α :=
  .error (.schemaResolution { code, message, path })

def writeError {α : Type} (code message : String) (path : List String) : Except Fault α :=
  .error (.entityWrite { code, message, path })

/-! ## The host -/

/-- What the layer calls of the standard library: what the database calls, `str` on a cell, `repr` on
a value and on a pattern, and `re.fullmatch`, which may raise. -/
structure Host where
  db : Db.Host
  str : Rules.Value → String
  reprValue : Datum → String
  reprText : String → String
  fullmatch : String → String → Except StoreErr Bool

/-- The host of the projector. -/
def Host.view (host : Host) : View.Host := ⟨host.str, host.db.sha256⟩

/-! ## The index -/

/-- `IdentityFieldInfo`. -/
structure IdentityFieldInfo where
  name : String
  typeDomain : String
  deriving DecidableEq

/-- `PredicateInfo`, with the fields the write commands read. -/
structure PredicateInfo where
  predId : String
  ownerType : String
  pyFieldName : Option String
  cardinality : String
  valueTypeDomain : Option String
  isEntityExists : Bool := false
  isIdentityField : Bool := false
  enumValues : Option (List Datum) := none
  pattern : Option String := none
  deriving DecidableEq

/-- `EntityTypeInfo`. -/
structure EntityTypeInfo where
  entityType : String
  identityFields : List IdentityFieldInfo
  existsPredicateId : String
  identityPredicates : List (String × PredicateInfo)

/-- `SchemaIndex`. -/
structure SchemaIndex where
  entities : List (String × EntityTypeInfo)
  fieldPredicates : List ((String × String) × PredicateInfo)
  predicatesById : List (String × PredicateInfo)
  identityPredIds : List String
  existsPredIds : List String

/-- `entity_info`. -/
def entityInfo (index : SchemaIndex) (entityType : String) : Except Fault EntityTypeInfo :=
  match Dict.get? index.entities entityType with
  | some info => .ok info
  | none => schemaError "ENTITY_TYPE_NOT_FOUND" s!"unknown entity_type: {entityType}" ["entity_type"]

/-- `field_predicate`. -/
def fieldPredicate (index : SchemaIndex) (entityType fieldName : String) :
    Except Fault PredicateInfo :=
  match Dict.get? index.fieldPredicates (entityType, fieldName) with
  | some info => .ok info
  | none =>
      schemaError "FIELD_PATH_NOT_FOUND" s!"unknown field path: {entityType}.{fieldName}" ["field_path"]

/-- `field_value_type`: a reference, or a scalar of a domain. -/
inductive FieldType where
  | entityRef
  | scalar (domain : Option String)

def fieldValueType (pred : PredicateInfo) : FieldType :=
  if pred.valueTypeDomain = some "entity_ref" then .entityRef else .scalar pred.valueTypeDomain

/-! ## References -/

/-- `EntityRef`. -/
structure EntityRef where
  entityType : String
  identity : List (String × Datum)
  encodedRef : Option String := none

/-- The identity fields of a reference, as they are encoded. -/
def identityTuples (ref : EntityRef) (fields : List IdentityFieldInfo) :
    Except Fault (List (String × String × Datum)) :=
  mapOk (fun field => match Dict.get? ref.identity field.name with
    | some value => .ok (field.name, field.typeDomain, value)
    | none => schemaError "IDENTITY_INCOMPLETE"
        s!"EntityRef identity is incomplete for {ref.entityType}: missing {field.name}"
        ["identity", field.name]) fields

/-- `encode_entity_ref`. -/
def encodeEntityRef (host : Host) (index : SchemaIndex) (ref : EntityRef) : Except Fault String := do
  let info ← entityInfo index ref.entityType
  let tuples ← identityTuples ref info.identityFields
  lift (View.encodeIdrefV1 host.view ref.entityType tuples)

/-- `_encoded_ref`. -/
def encodedRef (host : Host) (index : SchemaIndex) (ref : EntityRef) : Except Fault String :=
  match ref.encodedRef with
  | some encoded => if encoded ≠ "" then .ok encoded else encodeEntityRef host index ref
  | none => encodeEntityRef host index ref

def mismatch {α : Type} (entityType fieldName what : String) : Except Fault α :=
  schemaError "IDENTITY_TYPE_MISMATCH" s!"{entityType}.{fieldName} expects {what} identity value"
    ["identity", fieldName]

/-- `s.lower()`, on the ASCII letters: the lower case of no other letter occurs in a uuid. -/
def lower (s : String) : String := String.ofList (s.toList.map Char.toLower)

/-- `_normalize_identity_value`. -/
def normalizeIdentityValue (typeDomain : String) (value : Datum) (entityType fieldName : String) :
    Except Fault Datum :=
  match typeDomain with
  | "string" =>
      match value with
      | .leaf (.str _) => .ok value
      | _ => mismatch entityType fieldName "string"
  | "int" =>
      match value with
      | .leaf (.int _) => .ok value
      | _ => mismatch entityType fieldName "int"
  | "bool" =>
      match value with
      | .leaf (.bool _) => .ok value
      | _ => mismatch entityType fieldName "bool"
  | "float64" =>
      match value with
      | .leaf (.float _) | .leaf (.str _) => .ok value
      | _ => mismatch entityType fieldName "float64"
  | "time" =>
      match value with
      | .leaf (.int _) => .ok value
      | _ => mismatch entityType fieldName "epoch-nanos int"
  | "uuid" =>
      match value with
      | .leaf (.str s) => if s ≠ "" then .ok (.leaf (.str (lower s)))
          else mismatch entityType fieldName "uuid string"
      | _ => mismatch entityType fieldName "uuid string"
  | "bytes" | "entity_ref" => schemaError "UNSUPPORTED_IDENTITY_DOMAIN"
      s!"{entityType}.{fieldName} uses unsupported protocol identity domain: {typeDomain}"
      ["identity", fieldName]
  | _ => schemaError "UNKNOWN_IDENTITY_DOMAIN"
      s!"{entityType}.{fieldName} uses unknown identity domain: {typeDomain}" ["identity", fieldName]

/-- The loop of `materialize_identity`: the identity and the names that are missing. -/
def materializeFields (entityType : String) (partialIdentity : List (String × Datum)) :
    List IdentityFieldInfo → Except Fault (List (String × Datum) × List String)
  | [] => .ok ([], [])
  | field :: fields =>
      match Dict.get? partialIdentity field.name with
      | some value => do
          let value ← normalizeIdentityValue field.typeDomain value entityType field.name
          let (identity, missing) ← materializeFields entityType partialIdentity fields
          .ok ((field.name, value) :: identity, missing)
      | none => do
          let (identity, missing) ← materializeFields entityType partialIdentity fields
          .ok (identity, field.name :: missing)

/-- `repr` of a list of names. -/
def reprNames (host : Host) (names : List String) : String :=
  "[" ++ ", ".intercalate (names.map host.reprText) ++ "]"

/-- `materialize_identity`. -/
def materializeIdentity (host : Host) (index : SchemaIndex) (entityType : String)
    (partialIdentity : List (String × Datum)) : Except Fault (List (String × Datum)) := do
  let info ← entityInfo index entityType
  let allowed := info.identityFields.map (·.name)
  let unknown := ((Dict.keys partialIdentity).filter (· ∉ allowed)).insertionSort (· ≤ ·)
  require unknown.isEmpty (.schemaResolution
    { code := "UNKNOWN_IDENTITY_FIELD"
      message := s!"unknown identity fields for {entityType}: {reprNames host unknown}"
      path := ["identity"] })
  let (identity, missing) ← materializeFields entityType partialIdentity info.identityFields
  require missing.isEmpty (.schemaResolution
    { code := "IDENTITY_INCOMPLETE"
      message := s!"identity is incomplete for {entityType}; missing required fields: " ++
        reprNames host missing
      path := ["identity"] })
  .ok identity

/-! ## Values -/

/-- The value of a planned operation: a JSON value or bytes, or a reference. -/
inductive FieldValue where
  | scalar (value : Datum)
  | ref (ref : EntityRef)

/-- The key words of `repr` for a reference. -/
def reprRef (host : Host) (ref : EntityRef) : String :=
  let encoded := match ref.encodedRef with
    | some encoded => host.reprText encoded
    | none => "None"
  s!"EntityRef(entity_type={host.reprText ref.entityType}, " ++
    s!"identity={host.reprValue (.obj ref.identity)}, encoded_ref={encoded})"

def reprFieldValue (host : Host) : FieldValue → String
  | .scalar value => host.reprValue value
  | .ref ref => reprRef host ref

mutual

/-- Python `==` between two documents; an object is compared entry by entry. -/
def eqvDatum : Datum → Datum → Bool
  | .leaf x, .leaf y => decide (x.canon = y.canon)
  | .arr xs, .arr ys => eqvData xs ys
  | .obj fs, .obj gs => fs.length == gs.length && eqvFields fs gs
  | _, _ => false

def eqvData : List Datum → List Datum → Bool
  | [], [] => true
  | x :: xs, y :: ys => eqvDatum x y && eqvData xs ys
  | _, _ => false

def eqvFields : List (String × Datum) → List (String × Datum) → Bool
  | [], _ => true
  | (k, x) :: fs, gs =>
      (match Dict.get? gs k with
        | some y => eqvDatum x y
        | none => false) && eqvFields fs gs

end

/-- `value in enum_values`. -/
def inEnum (value : FieldValue) (enumValues : List Datum) : Bool :=
  match value with
  | .scalar value => enumValues.any fun e => eqvDatum value e
  | .ref _ => false

/-- `type(value).__name__`. -/
def fieldTypeName : FieldValue → String
  | .scalar value => Evidence.typeName value
  | .ref _ => "EntityRef"

/-- `repr` of the tuple of the values of an enumeration. -/
def reprEnum (host : Host) (enumValues : List Datum) : String :=
  match enumValues with
  | [e] => s!"({host.reprValue e},)"
  | es => "(" ++ ", ".intercalate (es.map host.reprValue) ++ ")"

/-- `FieldValueValidationError`, as the executor raises it again. -/
def validationError {α : Type} (message : String) : Except Fault α :=
  writeError "FIELD_VALUE_VALIDATION_FAILED" message ["planned_ops", "value"]

/-- `validate_field_value`. -/
def validateFieldValue (host : Host) (value : FieldValue) (pred : PredicateInfo) :
    Except Fault Unit := do
  match pred.enumValues with
  | none => .ok ()
  | some enumValues =>
      if inEnum value enumValues then .ok ()
      else validationError (s!"value {reprFieldValue host value} is not allowed for " ++
        s!"{pred.predId}; expected one of {reprEnum host enumValues}")
  match pred.pattern, value with
  | none, _ => .ok ()
  | some pattern, .scalar (.leaf (.str s)) => do
      let matched ← lift (host.fullmatch pattern s)
      if matched then .ok ()
      else validationError (s!"value {host.reprText s} does not match pattern " ++
        s!"{host.reprText pattern} for {pred.predId}")
  | some _, value => validationError <|
      s!"pattern validation expects str value for {pred.predId}; got " ++ fieldTypeName value

end FactGraph.Entity
