import FactGraph.Entity.Index
import FactGraph.Lib.FreshNames

/-!
# Lowering a where body against a schema

`authoring/where_schema_lowering.py`: the sugar of a where body (a field of an entity under the
lower-case name of its type, an equality between two attributes) is replaced by atoms over the
predicates of the schema.

A body is a list of atoms. The atoms that hold further atoms are negations, of a body or of the bodies
of several cases (`Not(Or([..], [..]))`), and the comparisons with an aggregate; every other tuple is
kept as its parts. A schema is a document as in `build_schema_index`.
-/

namespace FactGraph.Authoring

open Protocol Entity Check

/-! ## Bodies -/

mutual

/-- An atom of a where body. -/
inductive Atom where
  | pred (predId : String) (terms : List Datum)
  | attrEq (left right : Datum)
  | not (body : List Atom)
  | notCases (bodies : List (List Atom))
  | compare (op : String) (left right : Operand)
  | other (parts : List Datum)

/-- An operand of a comparison. -/
inductive Operand where
  | term (t : Datum)
  | aggregate (kind : String) (target : Datum) (filter : List Atom)

end

/-- A where clause: one body, or the bodies of its cases. -/
inductive Where where
  | body (atoms : List Atom)
  | cases (bodies : List (List Atom))

/-- `_var_name` of a text that `_is_var` accepts. -/
def varName? (s : String) : Option String :=
  match s.toList with
  | '$' :: c :: cs => some (String.ofList (c :: cs))
  | _ => none

/-- `_is_var`, with the name. -/
def varOf? : Datum → Option String
  | .leaf (.str s) => varName? s
  | _ => none

/-- The variable of the first term. -/
def headVar? (terms : List Datum) : Option String := terms.head?.bind varOf?

mutual

/-- `_collect_body_vars` of a term. -/
def datumVars : Datum → List String
  | .leaf (.str s) => (varName? s).toList
  | .leaf _ => []
  | .arr xs => datumsVars xs
  | .obj _ => []

def datumsVars : List Datum → List String
  | [] => []
  | x :: xs => datumVars x ++ datumsVars xs

end

mutual

/-- `_collect_body_vars` of an atom. -/
def atomVars : Atom → List String
  | .pred predId terms => (varName? predId).toList ++ datumsVars terms
  | .attrEq left right => datumVars left ++ datumVars right
  | .not body => bodyVars body
  | .notCases bodies => casesVars bodies
  | .compare op left right => (varName? op).toList ++ (operandVars left ++ operandVars right)
  | .other parts => datumsVars parts

def operandVars : Operand → List String
  | .term t => datumVars t
  | .aggregate kind target filter => (varName? kind).toList ++ (datumVars target ++ bodyVars filter)

/-- `_collect_body_vars` of a body. -/
def bodyVars : List Atom → List String
  | [] => []
  | a :: as => atomVars a ++ bodyVars as

def casesVars : List (List Atom) → List String
  | [] => []
  | body :: bodies => bodyVars body ++ casesVars bodies

end

mutual

/-- `_contains_attr_eq` of an atom. -/
def hasAttrEq : Atom → Bool
  | .attrEq _ _ => true
  | .not body => bodyHasAttrEq body
  | .notCases bodies => casesHaveAttrEq bodies
  | .compare _ left right => operandHasAttrEq left || operandHasAttrEq right
  | _ => false

def operandHasAttrEq : Operand → Bool
  | .term _ => false
  | .aggregate _ _ filter => bodyHasAttrEq filter

def bodyHasAttrEq : List Atom → Bool
  | [] => false
  | a :: as => hasAttrEq a || bodyHasAttrEq as

def casesHaveAttrEq : List (List Atom) → Bool
  | [] => false
  | body :: bodies => bodyHasAttrEq body || casesHaveAttrEq bodies

end

/-! ## What is looked up of the schema -/

/-- `_build_record_meta`; the fields of a type are under the pair of both. -/
structure RecordMeta where
  entityTypes : List String := []
  recordTypes : List String := []
  identityFieldsByType : List (String × List String) := []
  existsPredByType : List (String × String) := []
  rolePredByTypeField : List ((String × String) × String) := []
  typeByExistsPred : List (String × String) := []
  typeByRolePred : List (String × (String × String)) := []
  predicateIds : List String := []

/-- One turn of the loop over the entities. -/
def RecordMeta.addEntity (m : RecordMeta) (e : EntityDoc) : RecordMeta :=
  if e.entityType = "" then m
  else
    { m with
      entityTypes := m.entityTypes ++ [e.entityType]
      recordTypes := m.recordTypes ++ [e.entityType]
      identityFieldsByType := Dict.set m.identityFieldsByType e.entityType
        (((e.identityFields.map (·.name)).filter (· ≠ "")).dedup.insertionSort (· ≤ ·)) }

/-- One turn of the loop over the predicates. -/
def RecordMeta.addPredicate (m : RecordMeta) (p : PredicateDoc) : RecordMeta :=
  match p.ownerType.filter fun owner => owner ≠ "" && p.predId ≠ "" with
  | none => m
  | some owner =>
      if p.entityExists = some true then
        { m with
          recordTypes := m.recordTypes ++ [owner]
          existsPredByType := Dict.set m.existsPredByType owner p.predId
          typeByExistsPred := Dict.set m.typeByExistsPred p.predId owner }
      else if owner ∉ m.recordTypes then m
      else
        match p.pyFieldName.filter (· ≠ "") with
        | none => m
        | some field =>
            { m with
              rolePredByTypeField := Dict.set m.rolePredByTypeField (owner, field) p.predId
              typeByRolePred := Dict.set m.typeByRolePred p.predId (owner, field) }

/-- `_build_record_meta`. -/
def buildRecordMeta (doc : SchemaDoc) : RecordMeta :=
  let m := doc.predicates.foldl RecordMeta.addPredicate (doc.entities.foldl RecordMeta.addEntity {})
  { m with predicateIds := doc.predicates.map (·.predId) }

/-! ## Texts -/

/-- `s[:-len(":exists")]` of a text that ends so. -/
def existsPrefix? (s : String) : Option String :=
  let cs := s.toList
  let suffix := ":exists".toList
  if suffix.isSuffixOf cs then some (String.ofList (cs.take (cs.length - suffix.length))) else none

/-- `s.split(":", 1)[1]` of a text with a colon. -/
def afterColon? (s : String) : Option String :=
  match s.toList.dropWhile (· ≠ ':') with
  | [] => none
  | _ :: cs => some (String.ofList cs)

/-- A candidate of `_allocate_system_identity_var`. -/
def identityName (seq : Nat) : String := s!"__identity_{seq}"

/-! ## Rewriting -/

/-- `WhereSchemaLoweringError`. -/
structure LoweringError where
  message : String
  path : String
  deriving DecidableEq, Repr

def loweringError {α : Type} (message path : String) : Except LoweringError α :=
  .error ⟨message, path⟩

/-- What the loop over a body carries: the types of its variables, and the supply of names. -/
structure Context where
  recordVarTypes : List (String × String) := []
  usedVars : List String
  identityTmpSeq : Nat := 0

/-- The predicate an atom ends with, and the type it gives the variable of its first term. -/
def rewritePredId (m : RecordMeta) (types : List (String × String)) (predId var path : String) :
    Except LoweringError (String × List (String × String)) :=
  match Dict.get? m.typeByExistsPred predId with
  | some type => .ok (predId, Dict.set types var type)
  | none =>
    match Dict.get? m.typeByRolePred predId with
    | some (owner, _) => .ok (predId, if Dict.has types var then types else Dict.set types var owner)
    | none =>
      match existsPrefix? predId with
      | some type =>
          match Dict.get? m.existsPredByType type with
          | some canonical => .ok (canonical, Dict.set types var type)
          | none =>
              if predId ∈ m.predicateIds then .ok (predId, types)
              else if type ∈ m.recordTypes then
                loweringError s!"entity exists predicate not found in schema for {type}" path
              else .ok (predId, types)
      | none =>
          match afterColon? predId, Dict.get? types var with
          | some field, some type =>
              match Dict.get? m.rolePredByTypeField (type, field) with
              | some canonical => .ok (canonical, types)
              | none =>
                  if predId ∈ m.predicateIds then .ok (predId, types)
                  else loweringError
                    s!"entity field predicate not found in schema for {type}.{field}" path
          | _, _ => .ok (predId, types)

/-- A side of an attribute equality: the token of its variable, the field and the variable. -/
structure Side where
  token : Datum
  field : String
  var : String

/-- `_parse_attr_eq_side`. -/
def parseAttrEqSide (side : Datum) (path : String) : Except LoweringError Side :=
  match side with
  | .arr [token, field] =>
      match varOf? token with
      | none => loweringError "attr_eq side var must be '$' variable" s!"{path}[0]"
      | some var =>
          match field with
          | .leaf (.str name) =>
              if name ≠ "" then .ok ⟨token, name, var⟩
              else loweringError "attr_eq side field_name must be non-empty string" s!"{path}[1]"
          | _ => loweringError "attr_eq side field_name must be non-empty string" s!"{path}[1]"
  | _ => loweringError "attr_eq side must be (var, field_name)" path

def quoted (s : String) : String := "'" ++ s ++ "'"

/-- `_raise_non_identity`. -/
def nonIdentityMessage (type field : String) (identityFields : List String) : String :=
  let expected := match identityFields with
    | [name] => s!"Cross-coordinate comparison requires Identity field {quoted name}."
    | names => "Cross-coordinate comparison requires one of Identity fields: " ++
        ", ".intercalate (names.map quoted)
  s!"{quoted field} is not an Identity field of {type}. {expected} " ++
    "Full entity equality is a future entity-equality primitive, not implicit attr_eq expansion."

/-- The type of the variable of a side. -/
def sideType (types : List (String × String)) (side : Side) (path : String) :
    Except LoweringError String :=
  match Dict.get? types side.var with
  | some type => .ok type
  | none => loweringError
      "entity variable used in attribute comparison before constructor binding" path

/-- The identity predicate an attribute equality is over. -/
def attrEqPredicate (m : RecordMeta) (types : List (String × String)) (left right : Side)
    (path : String) : Except LoweringError String := do
  let leftType ← sideType types left path
  let rightType ← sideType types right path
  require (leftType = rightType) (⟨"cross-coordinate comparison requires same entity type on " ++
    s!"both sides: {leftType} != {rightType}", path⟩ : LoweringError)
  let identityFields := (Dict.get? m.identityFieldsByType leftType).getD []
  require (!identityFields.isEmpty) (⟨s!"{leftType} does not declare any Identity fields; " ++
    "cross-coordinate comparison is undefined", path⟩ : LoweringError)
  require (left.field ∈ identityFields)
    (⟨nonIdentityMessage leftType left.field identityFields, path⟩ : LoweringError)
  require (right.field ∈ identityFields)
    (⟨nonIdentityMessage leftType right.field identityFields, path⟩ : LoweringError)
  require (left.field = right.field)
    (⟨"cross-coordinate comparison must use the same Identity field on both sides: " ++
      s!"{left.field} != {right.field}. Full entity equality is a future entity-equality " ++
      "primitive, not implicit attr_eq expansion.", path⟩ : LoweringError)
  match Dict.get? m.rolePredByTypeField (leftType, left.field) with
  | some canonical => .ok canonical
  | none =>
      loweringError s!"Identity field predicate not found in schema for {leftType}.{left.field}" path

/-- `_allocate_system_identity_var`. -/
def allocateSystemIdentityVar (ctx : Context) : String × Context :=
  let seq := FreshNames.firstUnused identityName ctx.usedVars ctx.identityTmpSeq
  (identityName seq,
    { ctx with usedVars := identityName seq :: ctx.usedVars, identityTmpSeq := seq + 1 })

/-- `_rewrite_attr_eq_atom`. -/
def rewriteAttrEqAtom (m : RecordMeta) (ctx : Context) (left right : Datum) (path : String) :
    Except LoweringError (List Atom × Context) := do
  let l ← parseAttrEqSide left s!"{path}[1]"
  let r ← parseAttrEqSide right s!"{path}[2]"
  let canonical ← attrEqPredicate m ctx.recordVarTypes l r path
  let (temp, ctx) := allocateSystemIdentityVar ctx
  let token : Datum := .leaf (.str ("$" ++ temp))
  .ok ([.pred canonical [l.token, token], .pred canonical [r.token, token]], ctx)

mutual

/-- `_rewrite_atom`: the atoms it becomes. -/
def rewriteAtom (m : RecordMeta) (ctx : Context) (path : String) :
    Atom → Except LoweringError (List Atom × Context)
  | .pred predId terms =>
      match headVar? terms with
      | none => .ok ([.pred predId terms], ctx)
      | some var => do
          let (canonical, types) ← rewritePredId m ctx.recordVarTypes predId var path
          .ok ([.pred canonical terms], { ctx with recordVarTypes := types })
  | .attrEq left right => rewriteAttrEqAtom m ctx left right path
  | .not body => do
      let chunks ← rewriteAtoms m { usedVars := bodyVars body } s!"{path}[1]" 0 body
      .ok ([.not chunks.flatten], ctx)
  -- an item that is a list comes back as it is, and is strung together with the others
  | .notCases bodies => .ok ([.not bodies.flatten], ctx)
  | .compare op left right => .ok ([.compare op left right], ctx)
  | .other parts => .ok ([.other parts], ctx)

/-- The loop of `_rewrite_body`: what it appends for each atom. -/
def rewriteAtoms (m : RecordMeta) (ctx : Context) (path : String) (idx : Nat) :
    List Atom → Except LoweringError (List (List Atom))
  | [] => .ok []
  | a :: as => do
      let (chunk, ctx) ← rewriteAtom m ctx s!"{path}[{idx}]" a
      let chunks ← rewriteAtoms m ctx path (idx + 1) as
      .ok (chunk :: chunks)

end

/-- `_rewrite_body`, atom by atom. -/
def rewriteBody (m : RecordMeta) (path : String) (body : List Atom) :
    Except LoweringError (List (List Atom)) :=
  rewriteAtoms m { usedVars := bodyVars body } path 0 body

/-- `_rewrite_where`. -/
def rewriteWhere (m : RecordMeta) (path : String) : Where → Except LoweringError Where
  | .body atoms => do
      let chunks ← rewriteBody m path atoms
      .ok (.body chunks.flatten)
  | .cases bodies => do
      let out ← mapOk (fun p => do
        let chunks ← rewriteBody m s!"{path}[{p.2}]" p.1
        .ok chunks.flatten) bodies.zipIdx
      .ok (.cases out)

/-- `lower_blueprint_where_sugar_with_schema_v1`. -/
def lowerBlueprintWhereSugarWithSchemaV1 (schema : Option SchemaDoc) (path : String) (w : Where) :
    Except LoweringError Where :=
  match schema with
  | none =>
      let found := match w with
        | .body atoms => bodyHasAttrEq atoms
        | .cases bodies => bodies.any bodyHasAttrEq
      if found then loweringError
        "attribute-to-attribute comparison requires schema-aware compile context" path
      else .ok w
  | some doc =>
      let m := buildRecordMeta doc
      if m.entityTypes.isEmpty && m.predicateIds.isEmpty then .ok w else rewriteWhere m path w

end FactGraph.Authoring
