import FactGraph.Lib.Datalog
import FactGraph.View.Projector

/-!
# The generated view program

`adapters/souffle/souffle_view_gen.py`: the Datalog rules that derive the views of a schema from the
exported facts, and `adapters/souffle/pred_norm.py`: the names of their relations.

The text is kept as abstract syntax: a rule per line, without the `.decl`, `.input` and `.output`
lines. A variable of the text is a constructor here, so that `V0`, `D0`, `TagOut0`, … are distinct by
construction as they are by spelling. A relation is a constructor too, and a quoted literal is what
stands between its quotes; what the engine makes of both is `readText`, where relations are told
apart by their names alone and the quoted text is read by the engine's own rules of escaping.
-/

namespace FactGraph.Souffle

open Check Datalog View

/-- What the generator raises. -/
inductive GenErr where
  | valueError (msg : String)
  | notImplemented (msg : String)
  deriving DecidableEq, Repr

/-! ## Names -/

/-- `f"{n:02x}"`. -/
def hex02 (n : Nat) : String :=
  let digits := Nat.toDigits 16 n
  String.ofList (List.replicate (2 - digits.length) '0' ++ digits)

/-- What `normalize_pred_id` writes for a character. -/
def normalizeChar (c : Char) : String :=
  if c.toNat < 128 && c.isAlphanum then String.singleton c
  else if c = ':' then "_"
  else if c = '_' then "__"
  else "_h" ++ hex02 c.toNat ++ "_"

/-- `normalize_pred_id`. -/
def normalizePredId (predId : String) : String :=
  "p_" ++ String.join (predId.toList.map normalizeChar)

/-- The relations of the program, by the engine name of a predicate. -/
inductive Rel where
  | claim
  | claimSeq
  | claimArg
  | revokes
  | active
  | view (engine : String)
  | witness (engine : String)
  | cand (engine : String)
  | maxSeq (engine : String)
  | better (engine : String)
  | chosen (engine : String)
  deriving DecidableEq

/-- The name in the text. -/
def Rel.name : Rel → String
  | .claim => "claim"
  | .claimSeq => "claim_seq"
  | .claimArg => "claim_arg"
  | .revokes => "revokes"
  | .active => "active"
  | .view engine => engine
  | .witness engine => engine ++ "_w"
  | .cand engine => "cand__" ++ engine
  | .maxSeq engine => "max_seq__" ++ engine
  | .better engine => "better_asrt__" ++ engine
  | .chosen engine => "chosen_asrt__" ++ engine

/-- The variables `A`, `B`, `E`, `Seq`, `seq`, `V0`, …, `D0`, …, `TagOut0`, …, `TagDim0`, …. -/
inductive Var where
  | a
  | b
  | e
  | seq
  | inner
  | v (i : Nat)
  | d (i : Nat)
  | tagOut (i : Nat)
  | tagDim (i : Nat)
  deriving DecidableEq

/-- A `symbol` or a `number`. -/
inductive Cell where
  | symbol (s : String)
  | number (n : Int)
  deriving DecidableEq, Repr

abbrev ViewRule := Datalog.Rule Rel Var Cell

def varArgs (vars : List Var) : List (Option (Datalog.Term Var Cell)) :=
  vars.map fun v => some (.var v)

/-- An atom over variables. -/
def atomOf (rel : Rel) (vars : List Var) : Datalog.Atom Rel Var Cell := ⟨rel, varArgs vars⟩

def headArgs (vars : List Var) : List (Datalog.Term Var Cell) := vars.map .var

/-! ## Literals -/

/-- `active(A) :- claim(A,_,_,_), !revokes(_,A).` -/
def activeRule : ViewRule where
  rel := .active
  args := headArgs [.a]
  body := [.pos ⟨.claim, [some (.var .a), none, none, none]⟩,
    .neg ⟨.revokes, [none, some (.var .a)]⟩]

/-- `claim(A,"{pred_id}",E,_)`. The id stands between the quotes as it is. -/
def claimOf (predId : String) : Literal Rel Var Cell :=
  .pos ⟨.claim, [some (.var .a), some (.const (.symbol predId)), some (.var .e), none]⟩

/-- `claim_arg(A,"{idx}",value,tag)`. -/
def claimArgAt (idx : Nat) (value tag : Var) : Literal Rel Var Cell :=
  .pos ⟨.claimArg, [some (.var .a), some (.const (.symbol (toString idx))), some (.var value),
    some (.var tag)]⟩

/-- The order `<` of symbols. -/
def Cell.less : Cell → Cell → Prop
  | .symbol s, .symbol t => s < t
  | .number m, .number n => m < n
  | _, _ => False

/-- `max`, of the numbers of a set. -/
def Cell.isMax (s : Set Cell) (c : Cell) : Prop :=
  ∃ n, c = .number n ∧ .number n ∈ s ∧ ∀ m, .number m ∈ s → m ≤ n

/-! ## The rules of a predicate -/

/-- What the generator reads off a predicate: its id, its engine name, whether it is multi-valued,
the number of its value columns and the argument index of each dimension. -/
structure ViewSpec where
  predId : String
  engine : String
  multi : Bool
  values : Nat
  dims : List Nat
  deriving DecidableEq

namespace ViewSpec

variable (s : ViewSpec)

/-- `value_vars`. -/
def valueVars : List Var := (List.range s.values).map .v

/-- `dim_vars`. -/
def dimVars : List Var := (List.range s.dims.length).map .d

/-- `key_vars`. -/
def keyVars : List Var := .e :: s.dimVars

/-- The `claim_arg` atoms of an output rule. -/
def outputArgs : List (Literal Rel Var Cell) :=
  (List.range s.values).map fun i => claimArgAt i (.v i) (.tagOut i)

/-- The output rule, and the one of the witness view. -/
def outputRules (witnesses : Bool) (body : List (Literal Rel Var Cell)) : List ViewRule :=
  ⟨.view s.engine, headArgs (.e :: s.valueVars), body⟩ ::
    if witnesses then [⟨.witness s.engine, headArgs (.e :: s.valueVars ++ [.a]), body⟩] else []

/-- The rules of a multi-valued predicate. -/
def multiRules (witnesses : Bool) : List ViewRule :=
  s.outputRules witnesses
    (claimOf s.predId :: .pos (atomOf .active [.a]) :: s.outputArgs)

def candRule : ViewRule where
  rel := .cand s.engine
  args := headArgs (.a :: s.keyVars ++ [.seq])
  body := claimOf s.predId :: .pos (atomOf .active [.a]) :: .pos (atomOf .claimSeq [.a, .seq]) ::
    s.dims.zipIdx.map fun (idx, i) => claimArgAt idx (.d i) (.tagDim i)

def maxSeqRule : ViewRule where
  rel := .maxSeq s.engine
  args := headArgs (s.keyVars ++ [.seq])
  body := [.pos ⟨.cand s.engine, none :: varArgs s.keyVars ++ [none]⟩,
    .aggregate Cell.isMax .seq .inner
      ⟨.cand s.engine, none :: varArgs s.keyVars ++ [some (.var .inner)]⟩]

def betterRule : ViewRule where
  rel := .better s.engine
  args := headArgs (s.keyVars ++ [.a])
  body := [.pos (atomOf (.cand s.engine) (.a :: s.keyVars ++ [.seq])),
    .pos (atomOf (.maxSeq s.engine) (s.keyVars ++ [.seq])),
    .pos (atomOf (.cand s.engine) (.b :: s.keyVars ++ [.seq])),
    .compare Cell.less (.var .b) (.var .a)]

def chosenRule : ViewRule where
  rel := .chosen s.engine
  args := headArgs (s.keyVars ++ [.a])
  body := [.pos (atomOf (.cand s.engine) (.a :: s.keyVars ++ [.seq])),
    .pos (atomOf (.maxSeq s.engine) (s.keyVars ++ [.seq])),
    .neg (atomOf (.better s.engine) (s.keyVars ++ [.a]))]

/-- The rules of a single-valued predicate. -/
def singleRules (witnesses : Bool) : List ViewRule :=
  [s.candRule, s.maxSeqRule, s.betterRule, s.chosenRule] ++
    s.outputRules witnesses (.pos (atomOf (.chosen s.engine) (s.keyVars ++ [.a])) :: s.outputArgs)

def rules (witnesses : Bool) : List ViewRule :=
  if s.multi then s.multiRules witnesses else s.singleRules witnesses

end ViewSpec

/-! ## The text -/

/-- A symbol, with what is read for the text between quotes. -/
def Cell.unquote (read : String → String) : Cell → Cell
  | .symbol s => .symbol (read s)
  | .number n => .number n

/-- The program as the engine reads it: a relation is its name, and a literal is what the engine
reads between the quotes. -/
def readText (read : String → String) (rules : List ViewRule) :
    List (Datalog.Rule String Var Cell) :=
  rules.map (Datalog.Rule.map Rel.name (Cell.unquote read))

/-- The text has nothing that ends a literal or is escaped in it. -/
def Quotable (s : String) : Prop := ∀ c ∈ s.toList, c ≠ '"' ∧ c ≠ '\\' ∧ c ≠ '\n'

/-! ## Schemas -/

/-- A predicate object of a schema document, with what the generator and the projector read of it.
A field that is missing or of another type is absent; of `arg_specs` only the length is read. -/
structure PredObject where
  predId : Option String
  cardinality : Option String
  argSpecs : Option Nat
  groupKeyIndexes : Option (List (Option Int))
  isEntityExists : Bool := false
  isIdentityField : Bool := false
  ownerType : Option String := none
  pyFieldName : Option String := none
  deriving DecidableEq

/-- A schema document. -/
structure SchemaObject where
  predicates : Option (List (Option PredObject))
  entities : Option (List (Option SchemaEntity))

/-- The projector takes a predicate without a cardinality as single-valued. -/
def PredObject.schemaPred (p : PredObject) : SchemaPred where
  predId := p.predId
  cardinality := p.cardinality.getD "single"
  isEntityExists := p.isEntityExists
  isIdentityField := p.isIdentityField
  ownerType := p.ownerType
  pyFieldName := p.pyFieldName
  groupKeyIndexes := p.groupKeyIndexes

def SchemaObject.schemaIr (s : SchemaObject) : SchemaIr where
  predicates := s.predicates.map fun ps => ps.map fun p => p.map PredObject.schemaPred
  entities := s.entities

/-- The loop of `_normalize_group_key_indexes`, from position `pos` and after the index `last`. -/
def readGroupIndexes (argCount : Nat) (predId : String) (pos : Nat) (last : Int) :
    List (Option Int) → Except GenErr (List Nat)
  | [] => .ok []
  | none :: _ => .error (.notImplemented s!"group_key_indexes[{pos}] must be int for {predId}")
  | some idx :: rest => do
      require (0 ≤ idx ∧ idx < argCount)
        (.notImplemented s!"group_key_indexes[{pos}] out of range for {predId}")
      require (last < idx)
        (.notImplemented s!"group_key_indexes must be strict ascending for {predId}")
      let more ← readGroupIndexes argCount predId (pos + 1) idx rest
      .ok (idx.toNat :: more)

/-- `_normalize_group_key_indexes`. -/
def normalizeGroupKeyIndexes (raw : Option (List (Option Int))) (argCount : Nat)
    (predId : String) : Except GenErr (List Nat) :=
  match raw with
  | none => .error (.notImplemented
      s!"souffle view generator requires list group_key_indexes: {predId}")
  | some indexes => do
      let out ← readGroupIndexes argCount predId 0 (-1) indexes
      require (0 ∈ out) (.notImplemented s!"group_key_indexes must include 0 for {predId}")
      .ok out

/-- The checks of the loop over the predicates. -/
def viewSpec (pred : Option PredObject) : Except GenErr ViewSpec :=
  match pred with
  | none => .error (.valueError "schema predicate must be dict")
  | some pred => do
      let predId := pred.predId.getD ""
      require (predId ≠ "") (.valueError "predicate pred_id must be non-empty string")
      require (pred.cardinality = some "single" ∨ pred.cardinality = some "multi")
        (.notImplemented s!"souffle view generator supports only single/multi predicates: {predId}")
      let argCount := pred.argSpecs.getD 0
      require (1 ≤ argCount) (.notImplemented
        ("souffle view generator requires arg_specs length>=1 (E required): " ++ predId))
      let indexes ← normalizeGroupKeyIndexes pred.groupKeyIndexes argCount predId
      .ok { predId
            engine := normalizePredId predId
            multi := pred.cardinality = some "multi"
            values := argCount - 1
            dims := (indexes.filter (0 < ·)).map (· - 1) }

/-- `generate_view_dl`. -/
def generateViewDl (schema : SchemaObject) (includeActiveRule includeWitnessViews : Bool) :
    Except GenErr (List ViewRule) :=
  match schema.predicates with
  | none => .error (.valueError "schema_ir.predicates must be list")
  | some predicates => do
      let specs ← mapOk viewSpec predicates
      .ok ((if includeActiveRule then [activeRule] else []) ++
        specs.flatMap (·.rules includeWitnessViews))

end FactGraph.Souffle
