import FactGraph.Authoring.Where

/-!
# Compiling a derivation

`compile_authoring_derivation_v1` of `authoring/derivation_compile.py`. A derivation has a where clause
and says what it derives: by a head call, by a target with a list of terms, or both. With a schema the
head call is lowered to such a list, unless both are given: of a field of an entity it is the variable
of the entity, which the where clause has to name, and the value of the field; of an entity it is the
values of its fields.

A text that looks like an identifier is a variable without its dollar sign.
-/

namespace FactGraph.Authoring

open Protocol Entity Check

/-! ## Payloads -/

/-- A value of a payload; `other` is one of a type that no term has. -/
inductive Raw where
  | leaf (s : Scalar)
  | list (items : List Raw)
  | tuple (items : List Raw)
  | other (typeName : String)

instance : Inhabited Raw := ⟨.leaf .none⟩

/-- A text. -/
def Raw.str (s : String) : Raw := .leaf (.str s)

/-- The text of a value that is one. -/
def Raw.text? : Raw → Option String
  | .leaf (.str s) => some s
  | _ => none

mutual

/-- `==`, on the values that a compiled term can have. -/
def Raw.eqv : Raw → Raw → Bool
  | .leaf s, .leaf t => decide (s.canon = t.canon)
  | .list xs, .list ys => rawsEqv xs ys
  | .tuple xs, .tuple ys => rawsEqv xs ys
  | _, _ => false

def rawsEqv : List Raw → List Raw → Bool
  | [], [] => true
  | x :: xs, y :: ys => x.eqv y && rawsEqv xs ys
  | _, _ => false

end

/-- The `head` of a payload. A field that is missing or has another type than the code asks for is
absent. -/
structure RawHead where
  kind : Option String := some "head_call"
  calleeKind : Option String
  entityType : Option String
  field : Option String := none
  kwargs : Option (List (String × Raw))

/-- The `emits` of a payload. -/
structure RawEmits where
  target : Option String
  vars : Option (List Raw)

/-- A payload. A key that is missing is `none`; of the six keys that are refused only that they are
there counts. Where an object or a list is asked for, `some none` is a value of another type. -/
structure Payload where
  derivationId : Option Raw := none
  name : Option Raw := none
  version : Option Raw := none
  description : Option Raw := none
  tags : Option Raw := none
  mode : Bool := false
  bodyConfidences : Bool := false
  engineExt : Bool := false
  temporalView : Bool := false
  materializeAs : Bool := false
  idPolicy : Bool := false
  where_ : Option (Option Where) := none
  body : Option (Option Where) := none
  head : Option (Option RawHead) := none
  emits : Option (Option RawEmits) := none
  targetPredId : Option Raw := none
  target : Option Raw := none
  headVars : Option Raw := none
  select : Option Raw := none

/-- `AuthoringDerivationCompileError`. -/
structure CompileError where
  message : String
  path : String
  deriving DecidableEq, Repr

def compileError {α : Type} (message path : String) : Except CompileError α := .error ⟨message, path⟩

/-! ## Terms -/

/-- `[A-Za-z_]`. -/
def isIdentStart (c : Char) : Bool := c.isAlpha || c = '_'

/-- `[A-Za-z0-9_]`. -/
def isIdentRest (c : Char) : Bool := c.isAlphanum || c = '_'

/-- `_IDENT_RE.fullmatch`. -/
def isIdent : List Char → Bool
  | [] => false
  | c :: cs => isIdentStart c && cs.all isIdentRest

/-- The text of a term: a variable, an identifier that becomes one, or a literal. -/
def normalizeText (message path s : String) : Except CompileError Raw :=
  match s.toList with
  | '$' :: cs => if isIdent cs then .ok (.str s) else compileError message path
  | cs => if isIdent cs then .ok (.str ("$" ++ s)) else .ok (.str s)

mutual

/-- `_normalize_head_kwarg_value`. -/
def normalizeHeadKwargValue (path : String) : Raw → Except CompileError Raw
  | .leaf (.str s) => normalizeText "head variable must be '$' + identifier" path s
  | .leaf (.int i) => .ok (.leaf (.int i))
  | .leaf (.bool b) => .ok (.leaf (.bool b))
  | .leaf .none => .ok (.leaf .none)
  | .list items => do
      let out ← normalizeHeadKwargValues s!"{path}[]" items
      .ok (.list out)
  | .tuple items => do
      let out ← normalizeHeadKwargValues s!"{path}[]" items
      .ok (.tuple out)
  | .leaf (.float _) | .leaf (.bytes _) | .other _ =>
      compileError "head kwarg value must be str|int|bool|null|list|tuple" path

def normalizeHeadKwargValues (path : String) : List Raw → Except CompileError (List Raw)
  | [] => .ok []
  | x :: xs => do
      let y ← normalizeHeadKwargValue path x
      let ys ← normalizeHeadKwargValues path xs
      .ok (y :: ys)

end

/-- The body of the loop of `_compile_head_vars`. -/
def compileHeadVar (path : String) : Raw → Except CompileError Raw
  | .leaf (.str s) => normalizeText "variable must be '$' + identifier" path s
  | .leaf (.int i) => .ok (.leaf (.int i))
  | .leaf (.bool b) => .ok (.leaf (.bool b))
  | _ => compileError "head var/literal must be str|int|bool" path

/-- The value that `_compile_head_vars` reads, and where it is. -/
def rawHeadVars (p : Payload) : Except CompileError (Raw × String) :=
  match p.headVars, p.select with
  | none, none => compileError "head_vars (or select) is required" "$.head_vars"
  | some headVars, none => .ok (headVars, "$.head_vars")
  | none, some select => .ok (select, "$.select")
  | some headVars, some select => do
      require (headVars.eqv select) (⟨"head_vars and select conflict", "$.select"⟩ : CompileError)
      .ok (headVars, "$.head_vars")

/-- `_compile_head_vars`. -/
def compileHeadVars (p : Payload) : Except CompileError (List Raw) := do
  let raw ← rawHeadVars p
  match raw.1 with
  | .list (item :: items) =>
      mapOk (fun x => compileHeadVar s!"{raw.2}[{x.2}]" x.1) (item :: items).zipIdx
  | _ => compileError "head_vars must be non-empty list" raw.2

/-! ## Heads -/

/-- `callee_kind`, with what a head of the kind has. -/
inductive Callee where
  | predRef (field : String)
  | entityType
  deriving DecidableEq, Repr

/-- A compiled head. -/
structure Head where
  callee : Callee
  entityType : String
  kwargs : List (String × Raw)

/-- A text that is there and is not empty. -/
def nonEmptyText (value : Option String) (message path : String) : Except CompileError String :=
  match value with
  | some s => if s = "" then compileError message path else .ok s
  | none => compileError message path

/-- The key and the term of a head argument. -/
def compileKwarg (kwarg : String × Raw) : Except CompileError (String × Raw) := do
  require (kwarg.1 ≠ "") (⟨"head.kwargs keys must be non-empty strings", "$.head.kwargs"⟩ : CompileError)
  let value ← normalizeHeadKwargValue s!"$.head.kwargs.{kwarg.1}" kwarg.2
  .ok (kwarg.1, value)

/-- The callee of a head, after its kind. -/
def compileCallee (raw : RawHead) : Except CompileError Callee :=
  match raw.calleeKind with
  | some "pred_ref" => do
      let field ← nonEmptyText raw.field "head.field must be non-empty string" "$.head.field"
      .ok (.predRef field)
  | _ => .ok .entityType

/-- `_compile_head`, of a head that is there. -/
def compileHeadCall : Option RawHead → Except CompileError Head
  | none => compileError "head must be object" "$.head"
  | some raw => do
      require (raw.kind = some "head_call")
        (⟨"head.kind must be 'head_call'", "$.head.kind"⟩ : CompileError)
      require (raw.calleeKind = some "pred_ref" ∨ raw.calleeKind = some "entity_type")
        (⟨"head.callee_kind must be 'pred_ref' or 'entity_type'", "$.head.callee_kind"⟩ : CompileError)
      let entityType ← nonEmptyText raw.entityType "head.entity_type must be non-empty string"
        "$.head.entity_type"
      let callee ← compileCallee raw
      let kwargs := raw.kwargs.getD []
      require (!kwargs.isEmpty)
        (⟨"head.kwargs must be non-empty object", "$.head.kwargs"⟩ : CompileError)
      let kwargs ← mapOk compileKwarg kwargs
      .ok ⟨callee, entityType, kwargs⟩

/-- `_compile_head`. -/
def compileHead (p : Payload) : Except CompileError (Option Head) :=
  match p.head with
  | none => .ok none
  | some raw => (compileHeadCall raw).map some

/-- `_compile_emits`. -/
def compileEmits : Option (Option RawEmits) → Except CompileError (Option (String × List Raw))
  | none => .ok none
  | some none => compileError "emits must be object" "$.emits"
  | some (some raw) => do
      let target ← nonEmptyText raw.target "emits.target must be non-empty string" "$.emits.target"
      let vars := raw.vars.getD []
      require (!vars.isEmpty) (⟨"emits.vars must be non-empty list", "$.emits.vars"⟩ : CompileError)
      .ok (some (target, vars))

/-! ## The schema -/

/-- `_identity_field_names`. -/
def identityFieldNames (doc : SchemaDoc) (entityType : String) : Except CompileError (List String) :=
  match doc.entities.find? fun e => e.entityType = entityType with
  | none => compileError s!"entity type not found in schema: {entityType}" "$.head.entity_type"
  | some entity => do
      require (!entity.identityFields.isEmpty)
        (⟨s!"entity identity_fields missing for {entityType}", "$.head.entity_type"⟩ : CompileError)
      let names ← mapOk (fun field => nonEmptyText (some field.1.name)
        "identity field name must be non-empty string" s!"$.head.identity_fields[{field.2}].name")
        entity.identityFields.zipIdx
      .ok (names.dedup.insertionSort (· ≤ ·))

/-- The check that no identity field is among the arguments of a head. -/
def rejectIdentityFields (doc : SchemaDoc) (head : Head) : Except CompileError Unit := do
  let identityFields ← identityFieldNames doc head.entityType
  let forbidden := ((Dict.keys head.kwargs).filter (· ∈ identityFields)).insertionSort (· ≤ ·)
  require forbidden.isEmpty (⟨"head must not include Identity fields; they are the immutable " ++
    "entity anchor and must be bound in where: " ++ ", ".intercalate forbidden, "$.head.kwargs"⟩ :
    CompileError)

/-- `_find_pred_for_head`; `lower` is `str.lower`. -/
def findPredForHead (lower : String → String) (doc : SchemaDoc) (entityType field : String) :
    Except CompileError PredicateDoc :=
  let isMatch (p : PredicateDoc) : Bool := p.ownerType = some entityType ∧ p.pyFieldName = some field
  let expectedPredId := lower entityType ++ ":" ++ field
  match doc.predicates.filter isMatch with
  | [pred] => .ok pred
  | _ :: _ :: _ => compileError
      s!"head resolves ambiguously to multiple predicates for {entityType}.{field}" "$.head"
  | [] =>
      match doc.predicates.filter fun p => p.predId = expectedPredId with
      | [pred] => .ok pred
      | _ :: _ :: _ => compileError s!"head fallback resolution ambiguous for {expectedPredId}" "$.head"
      | [] => compileError s!"head predicate not found in schema for {entityType}.{field}" "$.head"

/-- The field of an entity that a predicate stands for, if it stands for one. -/
def entityField? (p : PredicateDoc) : Except CompileError (Option String) :=
  if p.identityField = some true ∨ p.predId = "" then .ok none
  else do
    match p.argSpecs with
    | [first, _] =>
        require (first.typeDomain = "entity_ref")
          (⟨s!"entity field predicate {p.predId} arg0 must be entity_ref", "$.head"⟩ : CompileError)
    | _ => compileError s!"entity field predicate {p.predId} must have arity 2" "$.head"
    match p.pyFieldName.filter (· ≠ "") with
    | some name => .ok (some name)
    | none => do
        let name := (afterColon? p.predId).getD p.predId
        require (name ≠ "") (⟨s!"cannot infer role field name for {p.predId}", "$.head"⟩ : CompileError)
        .ok (some name)

/-- The names of `_find_entity_field_specs`. -/
def entityFieldNames (doc : SchemaDoc) (entityType : String) : Except CompileError (List String) := do
  let owned := doc.predicates.filter fun p => p.ownerType = some entityType
  let fields ← mapOk entityField? (owned.filter fun p => p.entityExists ≠ some true)
  require (owned.any fun p => p.entityExists = some true)
    (⟨s!"entity exists predicate not found for {entityType}", "$.head"⟩ : CompileError)
  let names := fields.filterMap id
  require (!names.isEmpty)
    (⟨s!"entity field predicates not found for {entityType}", "$.head"⟩ : CompileError)
  .ok names

/-! ## The variable of an entity -/

/-- `owner_by_pred`. -/
def ownerByPred (doc : SchemaDoc) : List (String × String) :=
  doc.predicates.foldl (fun owners p =>
    match p.ownerType.filter fun owner => owner ≠ "" && p.predId ≠ "" with
    | some owner => Dict.set owners p.predId owner
    | none => owners) []

mutual

/-- `walk`, on an atom: the variables it adds to `seen_vars`. -/
def walkAtom (owners : List (String × String)) (entityType : String) : Atom → List String
  | .pred predId terms =>
      if Dict.get? owners predId = some entityType then ((headVar? terms).map ("$" ++ ·)).toList else []
  | .not body => walkBody owners entityType body
  | .notCases bodies => walkCases owners entityType bodies
  | .attrEq _ _ | .compare _ _ _ | .other _ => []

/-- `walk`, on a body. -/
def walkBody (owners : List (String × String)) (entityType : String) : List Atom → List String
  | [] => []
  | a :: as => walkAtom owners entityType a ++ walkBody owners entityType as

/-- `walk`, on a list of bodies. -/
def walkCases (owners : List (String × String)) (entityType : String) : List (List Atom) → List String
  | [] => []
  | body :: bodies => walkBody owners entityType body ++ walkCases owners entityType bodies

end

/-- `walk`, on a clause. -/
def walkWhere (owners : List (String × String)) (entityType : String) : Where → List String
  | .body atoms => walkBody owners entityType atoms
  | .cases bodies => walkCases owners entityType bodies

/-- `_infer_unique_entity_binding_var`. -/
def inferUniqueEntityBindingVar (doc : SchemaDoc) (w : Where) (entityType : String) :
    Except CompileError String :=
  match (walkWhere (ownerByPred doc) entityType w).dedup with
  | [var] => .ok var
  | [] => compileError s!"where must bind one {entityType} entity variable for head anchor carry" "$.where"
  | vars => compileError (s!"where binds multiple {entityType} entity variables (ambiguous): " ++
      ", ".intercalate (vars.insertionSort (· ≤ ·)) ++ ". " ++
      "Cross-coordinate disambiguation must occur within body via Identity field constraints.") "$.where"

/-! ## Lowering -/

/-- The value of a field head: the first of the keys it may stand under, if the others agree. -/
def fieldValue (field argName : String) (kwargs : List (String × Raw)) : Except CompileError Raw := do
  let valueKeys := [field, "value", argName]
  let values := valueKeys.filterMap (Dict.get? kwargs)
  let ambiguous := ((valueKeys.filter (Dict.has kwargs)).dedup).insertionSort (· ≤ ·)
  match values with
  | [] =>
      compileError ("head kwargs missing field value; provide '" ++ field ++ "=...' (or 'value=...')")
        "$.head.kwargs"
  | value :: others => do
      require (others.all fun other => other.eqv value) (⟨"head value is ambiguous across keys: " ++
        ", ".intercalate ambiguous, "$.head.kwargs"⟩ : CompileError)
      let extra := ((Dict.keys kwargs).filter (· ∉ valueKeys)).insertionSort (· ≤ ·)
      require extra.isEmpty (⟨"head kwargs includes unknown args: " ++ ", ".intercalate extra,
        "$.head.kwargs"⟩ : CompileError)
      .ok value

/-- `_lower_fact_head_with_schema`. -/
def lowerFactHeadWithSchema (lower : String → String) (doc : SchemaDoc) (w : Where) (head : Head)
    (field : String) : Except CompileError (String × List Raw) := do
  let pred ← findPredForHead lower doc head.entityType field
  require (pred.predId ≠ "") (⟨"matched predicate missing pred_id", "$.head"⟩ : CompileError)
  require (!pred.argSpecs.isEmpty) (⟨"matched predicate missing arg_specs", "$.head"⟩ : CompileError)
  let argNames ← mapOk (fun spec => nonEmptyText (some spec.1.name)
    "matched predicate arg_specs.name must be non-empty string" s!"$.head.arg_specs[{spec.2}].name")
    pred.argSpecs.zipIdx
  match argNames with
  | [_, argName] => do
      rejectIdentityFields doc head
      let value ← fieldValue field argName head.kwargs
      let entityVar ← inferUniqueEntityBindingVar doc w head.entityType
      .ok (pred.predId, [.str entityVar, value])
  | _ => compileError s!"matched predicate {pred.predId} must have arity 2 for field head lowering" "$.head"

/-- `_lower_entity_head_with_schema`. -/
def lowerEntityHeadWithSchema (doc : SchemaDoc) (w : Where) (head : Head) :
    Except CompileError (String × List Raw) := do
  rejectIdentityFields doc head
  let _ ← inferUniqueEntityBindingVar doc w head.entityType
  let names ← entityFieldNames doc head.entityType
  let missing := names.filter fun name => !Dict.has head.kwargs name
  require missing.isEmpty (⟨"head kwargs missing entity fields: " ++ ", ".intercalate missing,
    "$.head.kwargs"⟩ : CompileError)
  let extra := ((Dict.keys head.kwargs).filter (· ∉ names)).insertionSort (· ≤ ·)
  require extra.isEmpty (⟨"head kwargs includes unknown entity fields: " ++ ", ".intercalate extra,
    "$.head.kwargs"⟩ : CompileError)
  .ok (head.entityType, names.map fun name => (Dict.get? head.kwargs name).getD default)

/-- The two ways of lowering a head. -/
def lowerHeadWithSchema (lower : String → String) (doc : SchemaDoc) (w : Where) (head : Head) :
    Except CompileError (String × List Raw) :=
  match head.callee with
  | .predRef field => lowerFactHeadWithSchema lower doc w head field
  | .entityType => lowerEntityHeadWithSchema doc w head

/-- `_synthesize_fact_head_from_target_with_schema`. -/
def synthesizeFactHead (doc : SchemaDoc) (targetPredId : String) (headVars : List Raw) : Option Head := do
  let pred ← doc.predicates.find? fun p => p.predId = targetPredId
  guard (pred.entityExists ≠ some true)
  let ownerType ← pred.ownerType.filter (· ≠ "")
  let field ← pred.pyFieldName.filter (· ≠ "")
  guard (pred.argSpecs.length = headVars.length ∧ pred.argSpecs.all fun spec => spec.name ≠ "")
  some ⟨.predRef field, ownerType,
    (pred.argSpecs.zip headVars).foldl (fun kwargs arg => Dict.set kwargs arg.1.name arg.2) []⟩

/-! ## Clauses -/

mutual

/-- One of the equal values: numbers by what they are, objects with their keys in order. -/
def canonDatum : Datum → Doc (Scalar ⊕ Rat)
  | .leaf s => .leaf s.canon
  | .arr xs => .arr (canonData xs)
  | .obj fs => .obj ((canonFields fs).insertionSort fun f g => f.1 ≤ g.1)

def canonData : List Datum → List (Doc (Scalar ⊕ Rat))
  | [] => []
  | x :: xs => canonDatum x :: canonData xs

def canonFields : List (String × Datum) → List (String × Doc (Scalar ⊕ Rat))
  | [] => []
  | (k, x) :: fs => (k, canonDatum x) :: canonFields fs

end

mutual

/-- The tuple of an atom. -/
def atomDatum : Atom → Datum
  | .pred predId terms => .arr [.leaf (.str "pred"), .leaf (.str predId), .arr terms]
  | .attrEq left right => .arr [.leaf (.str "attr_eq"), left, right]
  | .not body => .arr [.leaf (.str "not"), .arr (bodyData body)]
  | .notCases bodies => .arr [.leaf (.str "not"), .arr (casesData bodies)]
  | .compare op left right => .arr [.leaf (.str op), operandDatum left, operandDatum right]
  | .other parts => .arr parts

def operandDatum : Operand → Datum
  | .term t => t
  | .aggregate kind target filter => .arr [.leaf (.str kind), target, .arr (bodyData filter)]

def bodyData : List Atom → List Datum
  | [] => []
  | a :: as => atomDatum a :: bodyData as

def casesData : List (List Atom) → List Datum
  | [] => []
  | body :: bodies => .arr (bodyData body) :: casesData bodies

end

/-- The list of a clause. -/
def Where.data : Where → List Datum
  | .body atoms => bodyData atoms
  | .cases bodies => casesData bodies

/-- `==`, on clauses; one that is no list equals only such another. -/
def sameClause : Option Where → Option Where → Bool
  | some w, some w' => canonData w.data = canonData w'.data
  | none, none => true
  | _, _ => false

/-- The value that `_compile_where` reads, and where it is. -/
def rawWhere (p : Payload) : Except CompileError (Option Where × String) :=
  match p.where_, p.body with
  | none, none => compileError "where (or body) is required" "$.where"
  | some raw, none => .ok (raw, "$.where")
  | none, some raw => .ok (raw, "$.body")
  | some raw, some body => do
      require (sameClause raw body) (⟨"where and body conflict", "$.body"⟩ : CompileError)
      .ok (raw, "$.where")

/-- `_compile_where`. -/
def compileWhere (schema : Option SchemaDoc) (p : Payload) : Except CompileError Where := do
  let raw ← rawWhere p
  match raw.1 with
  | none => compileError "where must be non-empty list" raw.2
  | some w => do
      require (!w.data.isEmpty) (⟨"where must be non-empty list", raw.2⟩ : CompileError)
      match lowerBlueprintWhereSugarWithSchemaV1 schema raw.2 w with
      | .ok out => .ok out
      | .error e => compileError e.message e.path

/-! ## Derivations -/

/-- `_compile_optional_description`. -/
def compileOptionalDescription : Option Raw → Except CompileError (Option String)
  | none | some (.leaf .none) => .ok none
  | some raw =>
      (nonEmptyText raw.text? "description must be non-empty string" "$.description").map some

/-- `_compile_optional_tags`. -/
def compileOptionalTags : Option Raw → Except CompileError (Option (List String))
  | none | some (.leaf .none) => .ok none
  | some (.list tags) => do
      let out ← mapOk (fun tag => nonEmptyText tag.1.text? "tags items must be non-empty string"
        s!"$.tags[{tag.2}]") tags.zipIdx
      .ok (some out)
  | some _ => compileError "tags must be list[str]" "$.tags"

/-- The keys that are refused with the rest of the payload unread. -/
def rejectEngineKeys (p : Payload) : Except CompileError Unit := do
  require (!p.mode) (⟨"mode is not accepted in derivation payload; use call-site engine selection",
    "$.mode"⟩ : CompileError)
  require (!p.bodyConfidences) (⟨"body_confidences is not accepted in derivation payload; " ++
    "use ProbLogRuleExt.case_probabilities or future SemanticsProfile.rule_projection.problog",
    "$.body_confidences"⟩ : CompileError)
  require (!p.engineExt) (⟨"engine_ext is not accepted in derivation payload; use future " ++
    "SemanticsProfile.rule_projection", "$.engine_ext"⟩ : CompileError)
  require (!p.temporalView) (⟨"temporal_view is removed; derivation evaluation uses active " ++
    "projection only", "$.temporal_view"⟩ : CompileError)

/-- The keys that are removed from the syntax. -/
def rejectRemovedKeys (p : Payload) : Except CompileError Unit := do
  require (!p.materializeAs) (⟨"materialize_as is removed from user syntax; candidate kind is " ++
    "inferred from head shape", "$.materialize_as"⟩ : CompileError)
  require (!p.idPolicy) (⟨"id_policy is removed from user syntax in candidate protocol v2",
    "$.id_policy"⟩ : CompileError)

/-- `explicit_target_pred_id`, if it is a non-empty text. -/
def explicitTarget (p : Payload) (emits : Option (String × List Raw)) : Option String :=
  (((p.targetPredId <|> p.target) <|> emits.map fun e => Raw.str e.1).bind Raw.text?).filter (· ≠ "")

/-- The terms of the head are given. -/
def Payload.hasHeadVars (p : Payload) : Bool := p.headVars.isSome || p.select.isSome

/-- The lowered head, where it is asked for. -/
def lowerHead (lower : String → String) (schema : Option SchemaDoc) (w : Where) (head : Option Head)
    (p : Payload) (target : Option String) : Except CompileError (Option (String × List Raw)) :=
  match head, schema with
  | some head, some doc =>
      if target.isNone ∨ p.hasHeadVars = false then
        (lowerHeadWithSchema lower doc w head).map some
      else .ok none
  | _, _ => .ok none

/-- `target_pred_id`, if it is a non-empty text. -/
def targetText (head : Option Head) (lowered : Option (String × List Raw)) (target : Option String) :
    Except CompileError String :=
  match target <|> (lowered.map Prod.fst).filter (· ≠ "") with
  | some resolved => .ok resolved
  | none =>
      if head.isSome then compileError ("head-based derivation requires target_pred_id/target in " ++
        "current v1 implementation (or schema-aware compile context)") "$.head"
      else compileError "target_pred_id (or target) must be non-empty string" "$.target_pred_id"

/-- The target of a derivation. -/
def resolveTarget (p : Payload) (head : Option Head) (emits lowered : Option (String × List Raw))
    (target : Option String) : Except CompileError String := do
  let resolved ← targetText head lowered target
  require (lowered.all fun l => resolved = l.1)
    (⟨"target_pred_id/target conflicts with head-derived target from schema",
      if p.targetPredId.isSome then "$.target_pred_id" else "$.target"⟩ : CompileError)
  require (emits.all fun e => resolved = e.1)
    (⟨"emits.target conflicts with target_pred_id/target", "$.emits.target"⟩ : CompileError)
  .ok resolved

/-- The terms of the head of a derivation. -/
def resolveHeadVars (p : Payload) (emits lowered : Option (String × List Raw)) :
    Except CompileError (List Raw) :=
  if p.hasHeadVars then do
    let headVars ← compileHeadVars p
    require (emits.all fun e => rawsEqv headVars e.2)
      (⟨"emits.vars conflicts with head_vars/select", "$.emits.vars"⟩ : CompileError)
    require (lowered.all fun l => rawsEqv headVars l.2)
      (⟨"head_vars/select conflicts with head-derived positional mapping from schema arg_specs",
        if p.headVars.isSome then "$.head_vars" else "$.select"⟩ : CompileError)
    .ok headVars
  else
    match lowered, emits with
    | some l, _ => .ok l.2
    | none, some e => .ok e.2
    | none, none => compileHeadVars p

/-- A compiled derivation; its mode is always `native`. -/
structure Derivation where
  derivationId : String
  version : String
  targetPredId : String
  headVars : List Raw
  where_ : Where
  head : Option Head
  description : Option String
  tags : Option (List String)

/-- `compile_authoring_derivation_v1`. -/
def compileAuthoringDerivationV1 (lower : String → String) (schema : Option SchemaDoc) (p : Payload) :
    Except CompileError Derivation := do
  let derivationId ← nonEmptyText ((p.derivationId <|> p.name).bind Raw.text?)
    "derivation_id (or name) must be non-empty string" "$.derivation_id"
  let version ← nonEmptyText ((p.version.getD (.str "v1")).text?)
    "version must be non-empty string" "$.version"
  let description ← compileOptionalDescription p.description
  let tags ← compileOptionalTags p.tags
  rejectEngineKeys p
  let w ← compileWhere schema p
  let head ← compileHead p
  rejectRemovedKeys p
  let emits ← compileEmits p.emits
  let target := explicitTarget p emits
  let lowered ← lowerHead lower schema w head p target
  let targetPredId ← resolveTarget p head emits lowered target
  let headVars ← resolveHeadVars p emits lowered
  let synthesized := if head.isNone then schema.bind fun doc => synthesizeFactHead doc targetPredId headVars
    else none
  .ok { derivationId, version, targetPredId, headVars, where_ := w, head := head <|> synthesized,
        description, tags }

end FactGraph.Authoring
