import FactGraph.Rules.Value

/-!
# The where AST

The nodes of `core/rules/where_ast.py`. A where clause reaches the evaluator as raw Python tuples
and the validator as the AST those tuples parse to; parsing and lowering are inverse on every
clause that parses, so one type serves both. What the raw tuples carry and the AST does not, the
tests `_is_var` and `_is_aggregate_term`, is the choice of constructor here. Origins, read only
for the `path` of an error, are left out.

Terms contain aggregates, aggregates contain atoms, atoms contain terms: the three types are
mutual, and every function over them below is a structural recursion with one equation for each
list it descends through.
-/

namespace FactGraph.Rules

/-! ## Tags -/

inductive CmpOp where
  | eq | ne | gt | ge | lt | le
  deriving DecidableEq, Repr

inductive BuiltinOp where
  | add | sub | neg | addc | mulc
  deriving DecidableEq, Repr

inductive AggKind where
  | count | sum | min | max | mean
  deriving DecidableEq, Repr

def CmpOp.name : CmpOp → String
  | .eq => "eq" | .ne => "ne" | .gt => "gt" | .ge => "ge" | .lt => "lt" | .le => "le"

def BuiltinOp.name : BuiltinOp → String
  | .add => "add" | .sub => "sub" | .neg => "neg" | .addc => "addc" | .mulc => "mulc"

def AggKind.name : AggKind → String
  | .count => "count" | .sum => "sum" | .min => "min" | .max => "max" | .mean => "mean"

/-! ## Nodes -/

mutual

/-- `Var | Const | AggregateAtom`. -/
inductive Term where
  | var (name : String)
  | const (value : Value)
  | agg (kind : AggKind) (target : Option Term) (filter : List Atom)

/-- `PredAtom | RuleRefAtom | CmpAtom | InAtom | BuiltinAtom | NotAtom`. -/
inductive Atom where
  | pred (predId : String) (terms : List Term)
  | ruleref (ruleId : String) (version : Option String) (terms : List Term)
  | cmp (op : CmpOp) (lhs rhs : Term)
  | inn (var : String) (values : List Value)
  | builtin (op : BuiltinOp) (args : List Term)
  | not (body : WhereExpr)

/-- `AndExpr | OrExpr`. -/
inductive WhereExpr where
  | and (atoms : List Atom)
  | or (branches : List (List Atom))

end

/-- `body.branches if isinstance(body, OrExpr) else [body]`. -/
def WhereExpr.branches : WhereExpr → List (List Atom)
  | .and atoms => [atoms]
  | .or branches => branches

/-- `_atom_kind`. -/
def Atom.kind : Atom → String
  | .pred .. => "pred"
  | .ruleref .. => "ruleref"
  | .cmp op .. => op.name
  | .inn .. => "in"
  | .builtin op .. => op.name
  | .not _ => "not"

/-! ## Variables -/

mutual

/-- `_vars_in_term`. -/
def varsInTerm : Term → Scope
  | .var x => {x}
  | .const _ => ∅
  | .agg _ target filter => varsInTarget target ∪ varsInAtomList filter

/-- The variables of an aggregate's optional target. -/
def varsInTarget : Option Term → Scope
  | none => ∅
  | some t => varsInTerm t

/-- `_vars_in_terms`. -/
def varsInTerms : List Term → Scope
  | [] => ∅
  | t :: ts => varsInTerm t ∪ varsInTerms ts

/-- `_vars_in_atom`. -/
def varsInAtom : Atom → Scope
  | .pred _ terms => varsInTerms terms
  | .ruleref _ _ terms => varsInTerms terms
  | .cmp _ lhs rhs => varsInTerm lhs ∪ varsInTerm rhs
  | .inn x _ => {x}
  | .builtin _ args => varsInTerms args
  | .not body => varsInWhere body

def varsInAtomList : List Atom → Scope
  | [] => ∅
  | a :: as => varsInAtom a ∪ varsInAtomList as

def varsInBranches : List (List Atom) → Scope
  | [] => ∅
  | b :: bs => varsInAtomList b ∪ varsInBranches bs

def varsInWhere : WhereExpr → Scope
  | .and atoms => varsInAtomList atoms
  | .or branches => varsInBranches branches

end

/-! ## Aggregates inside a term -/

mutual

/-- `_aggregates_in_term`: an aggregate, then those of its target. -/
def aggregatesInTerm : Term → List (Option Term × List Atom)
  | .var _ => []
  | .const _ => []
  | .agg _ target filter => (target, filter) :: aggregatesInTarget target

def aggregatesInTarget : Option Term → List (Option Term × List Atom)
  | none => []
  | some t => aggregatesInTerm t

end

/-- `_aggregates_in_atom`: comparison and arithmetic atoms only. -/
def aggregatesInAtom : Atom → List (Option Term × List Atom)
  | .cmp _ lhs rhs => aggregatesInTerm lhs ++ aggregatesInTerm rhs
  | .builtin _ args => args.flatMap aggregatesInTerm
  | .pred .. | .ruleref .. | .inn .. | .not _ => []

/-- `isinstance(term, AggregateAtom)`. -/
def Term.isAgg : Term → Bool
  | .agg .. => true
  | .var _ | .const _ => false

def Term.isVar : Term → Bool
  | .var _ => true
  | .agg .. | .const _ => false

end FactGraph.Rules
