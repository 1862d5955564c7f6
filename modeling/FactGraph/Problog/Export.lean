import Mathlib.Data.List.DropRight
import FactGraph.Lib.Check
import FactGraph.Protocol.Terms
import FactGraph.Rules.Ast

/-!
# Clauses of ProbLog

`adapters/problog/problog_export.py`: the clauses that are written for the bodies of a rule. A clause
is a list of pieces of text in which the variables and the constants are marked; the text of a
constant, which `_to_problog_literal` writes in quotes or as a number, is left out, and so are the
lines of facts and the checks of a weighted choice.
-/

namespace FactGraph.Problog

open Protocol Check
open Rules (CmpOp BuiltinOp AggKind)

/-- `ProbLogExportError`. -/
structure ExportError where
  message : String
  deriving DecidableEq, Repr

def demand (c : Bool) (message : String) : Except ExportError Unit := require c ⟨message⟩

/-! ## Clauses of a rule -/

mutual

/-- An operand of a comparison: a term, or an aggregate. -/
inductive Operand where
  | term (value : Datum)
  | aggregate (kind : AggKind) (target : Option Datum) (filter : List Atom)

/-- An atom as it comes in a where clause; a variable is a string of the form `$name`. -/
inductive Atom where
  | pred (predId : String) (terms : List Datum)
  | cmp (op : CmpOp) (lhs rhs : Operand)
  | arith (op : BuiltinOp) (out : Datum) (args : List Datum)
  | inn (lhs : Datum) (values : List Datum)
  | not (branches : List (List Atom))

end

def Operand.isAggregate : Operand → Bool
  | .aggregate .. => true
  | .term _ => false

/-- `value.startswith("$")`, of a string. -/
def token? : Datum → Option String
  | .leaf (.str s) => if startsWith "$" s then some s else none
  | _ => none

/-! ## Names -/

/-- `[A-Za-z0-9]`. -/
def isIdent (c : Char) : Bool := c.toNat < 128 && c.isAlphanum

/-- `_VAR_IDENT_RE.sub("_", raw).strip("_") or default`. -/
def identOr (default raw : List Char) : List Char :=
  let normalized := ((raw.map fun c => if isIdent c then c else '_').dropWhile (· = '_')).rdropWhile
    (· = '_')
  if normalized = [] then default else normalized

/-- `_to_problog_var`. -/
def toProblogVar (token : String) : String :=
  String.ofList ('V' :: '_' :: (identOr ['v'] (token.toList.drop 1)).map Char.toUpper)

/-- `_CompileContext`. -/
structure CompileContext where
  nextId : Nat := 1
  requiresLists : Bool := false

def freshName (pfx : String) (id : Nat) : String :=
  let normalized := identOr "var".toList pfx.toList
  String.ofList ('A' :: 'g' :: 'g' :: ((normalized.take 1).map Char.toUpper ++ normalized.drop 1)) ++
    toString id

/-- `fresh`. -/
def CompileContext.fresh (ctx : CompileContext) (pfx : String) : String × CompileContext :=
  (freshName pfx ctx.nextId, { ctx with nextId := ctx.nextId + 1 })

/-! ## Text -/

inductive Token where
  | text (s : String)
  | var (name : String)
  | literal (value : Datum)

/-- `sep.join(parts)`. -/
def join (sep : String) (parts : List (List Token)) : List Token :=
  (parts.intersperse [.text sep]).flatten

/-- `_to_problog_term`. -/
def toProblogTerm (value : Datum) : Token :=
  match token? value with
  | some token => .var (toProblogVar token)
  | none => .literal value

/-- `_to_problog_arith_output`. -/
def toProblogArithOutput (op : BuiltinOp) (value : Datum) : Except ExportError Token :=
  match token? value with
  | some token => .ok (.var (toProblogVar token))
  | none => .error ⟨s!"{op.name} output must be a variable token"⟩

/-- `_to_problog_arith_term`. -/
def toProblogArithTerm (value : Datum) : Except ExportError Token :=
  match token? value, value with
  | some token, _ => .ok (.var (toProblogVar token))
  | none, .leaf (.int _) => .ok (.literal value)
  | none, _ => .error ⟨"arithmetic operands must be variables or integer literals"⟩

def sign : CmpOp → String
  | .eq => "=" | .ne => "\\=" | .gt => ">" | .ge => ">=" | .lt => "<" | .le => "=<"

def isOrder : CmpOp → Bool
  | .eq | .ne => false
  | .gt | .ge | .lt | .le => true

/-! ## Atoms -/

mutual

/-- `_validate_aggregate_filter_atoms`: no arithmetic in a filter. -/
def validFilterAtom : Atom → Bool
  | .pred .. | .cmp .. | .inn .. => true
  | .arith .. => false
  | .not branches => !branches.isEmpty && validFilterBranches branches

def validFilterAtoms : List Atom → Bool
  | [] => true
  | a :: as => validFilterAtom a && validFilterAtoms as

def validFilterBranches : List (List Atom) → Bool
  | [] => true
  | b :: bs => !b.isEmpty && validFilterAtoms b && validFilterBranches bs

end

/-- `_validate_aggregate_shape`. -/
def validateAggregateShape (kind : AggKind) (target : Option Datum) (filter : List Atom) :
    Except ExportError Unit := do
  if kind = .count then demand target.isNone "count aggregate target must be None"
  else demand (target.bind token?).isSome s!"{kind.name} aggregate target must be a variable token"
  demand (!filter.isEmpty) "aggregate filter must be non-empty list"
  demand (validFilterAtoms filter) "unsupported aggregate filter atom"

/-- The goals behind `findall` and the goal itself, without the names that are made for them. -/
def aggregateGoals (kind : AggKind) (target : List Token) (filterGoal : List Token)
    (list result : Token) (ctx : CompileContext) : List (List Token) × CompileContext :=
  let findall (t : List Token) : List Token :=
    .text "findall(" :: t ++ .text ", (" :: filterGoal ++ [.text "), ", list, .text ")"]
  let folded (name : String) (t : Token) : List Token := [.text name, list, .text ", ", t, .text ")"]
  let nonempty : List Token := [list, .text " = [_|_]"]
  match kind with
  | .count => ([findall [.text "1"], folded "length(" result], ctx)
  | .sum => ([findall target, folded "sum_list(" result], ctx)
  | .min => ([findall target, nonempty, folded "min_list(" result], ctx)
  | .max => ([findall target, nonempty, folded "max_list(" result], ctx)
  | .mean =>
      let (sum, ctx) := ctx.fresh "Sum"
      let (count, ctx) := ctx.fresh "Count"
      ([findall target, nonempty, folded "sum_list(" (.var sum), folded "length(" (.var count),
        [result, .text " is ", .var sum, .text " / ", .var count]], ctx)

mutual

/-- `_compile_atom`. -/
def compileAtom (ctx : CompileContext) : Atom → Except ExportError (List Token × CompileContext)
  | .pred predId terms => do
      demand (predId ≠ "") "pred_id must be non-empty string"
      match terms with
      | [] => .error ⟨"pred terms must be non-empty list"⟩
      | [t] => .ok ([.text "edb_fact(_, ", .literal (.leaf (.str predId)), .text ", ", toProblogTerm t,
          .text ", _)"], ctx)
      | [t, u] => .ok ([.text "edb_fact(_, ", .literal (.leaf (.str predId)), .text ", ",
          toProblogTerm t, .text ", ", toProblogTerm u, .text ")"], ctx)
      | _ => .error ⟨s!"pred atom arity > 2 is not supported in problog export: {predId}"⟩
  | .cmp op lhs rhs => do
      -- beside an aggregate, what is ordered is a number
      let arith := (lhs.isAggregate || rhs.isAggregate) && isOrder op
      let (lhsGoals, l, ctx) ← compileCmpOperand ctx arith lhs
      let (rhsGoals, r, ctx) ← compileCmpOperand ctx arith rhs
      .ok (join ", " (lhsGoals ++ rhsGoals ++ [[l, .text s!" {sign op} ", r]]), ctx)
  | .arith op out args => do
      let o ← toProblogArithOutput op out
      let terms ← mapOk toProblogArithTerm args
      match op, terms with
      | .neg, [t] => .ok ([o, .text " is -", t], ctx)
      | .add, [l, r] | .addc, [l, r] => .ok ([o, .text " is ", l, .text " + ", r], ctx)
      | .sub, [l, r] => .ok ([o, .text " is ", l, .text " - ", r], ctx)
      | .mulc, [l, r] => .ok ([o, .text " is ", l, .text " * ", r], ctx)
      | _, _ => .error ⟨s!"{op.name} atom has the wrong number of operands"⟩
  | .inn lhs values => do
      demand (!values.isEmpty) "in values must be non-empty list"
      .ok (.text "(" :: join " ; " (values.map fun v => [toProblogTerm lhs, .text " = ", toProblogTerm v])
        ++ [.text ")"], ctx)
  | .not branches => do
      demand (!branches.isEmpty) "not body must be non-empty list"
      let (terms, ctx) ← compileBranches ctx branches
      let inner := match terms with
        | [term] => term
        | terms => join " ; " (terms.map fun term => .text "(" :: term ++ [.text ")"])
      .ok (.text "\\+(" :: inner ++ [.text ")"], ctx)

/-- `_compile_cmp_operand`, `_compile_aggregate_parts`. -/
def compileCmpOperand (ctx : CompileContext) (arith : Bool) :
    Operand → Except ExportError (List (List Token) × Token × CompileContext)
  | .term value => do
      let t ← if arith then toProblogArithTerm value else .ok (toProblogTerm value)
      .ok ([], t, ctx)
  | .aggregate kind target filter => do
      validateAggregateShape kind target filter
      let (list, ctx) := { ctx with requiresLists := true }.fresh "List"
      let (result, ctx) := ctx.fresh "Result"
      let (filterGoals, ctx) ← compileAtoms ctx filter
      let t ← mapOk toProblogArithTerm target.toList
      let (goals, ctx) := aggregateGoals kind t (join ", " filterGoals) (.var list) (.var result) ctx
      .ok (goals, .var result, ctx)

def compileAtoms (ctx : CompileContext) :
    List Atom → Except ExportError (List (List Token) × CompileContext)
  | [] => .ok ([], ctx)
  | a :: as => do
      let (goal, ctx) ← compileAtom ctx a
      let (goals, ctx) ← compileAtoms ctx as
      .ok (goal :: goals, ctx)

def compileBranches (ctx : CompileContext) :
    List (List Atom) → Except ExportError (List (List Token) × CompileContext)
  | [] => .ok ([], ctx)
  | b :: bs => do
      demand (!b.isEmpty) "not OR branch must be non-empty"
      let (goals, ctx) ← compileAtoms ctx b
      let (terms, ctx) ← compileBranches ctx bs
      .ok (join ", " goals :: terms, ctx)

end

/-- `_compile_body`. -/
def compileBody (ctx : CompileContext) (body : List Atom) :
    Except ExportError (List Token × CompileContext) := do
  demand (!body.isEmpty) "where body must be non-empty list"
  let (goals, ctx) ← compileAtoms ctx body
  .ok (join ", " goals, ctx)

end FactGraph.Problog
