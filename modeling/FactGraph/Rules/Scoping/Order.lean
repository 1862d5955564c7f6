import Mathlib.Logic.Relation
import FactGraph.Lib.Schedule
import FactGraph.Rules.Runs

/-!
# The points of an evaluation

An evaluation is a tree of calls, and a **point** is one of them: a body run on an environment, an
atom met by an environment, an aggregate resolved, a target read. `Visits` is the call relation,
with everything that must have returned before the call is made: the atoms planned before, the
environments before this one in the loop, the branches of a `not` before this one. So a point is
reached exactly when the evaluator gets there, also in an evaluation that raises later.
-/

namespace FactGraph.Rules

open Check

variable {ctx : EvalCtx}

inductive Point where
  | body (atoms : List Atom) (env : Env)
  | atom (a : Atom) (env : Env)
  | agg (kind : AggKind) (target : Option Term) (filter : List Atom) (env : Env)
  | target (t : Term) (env : Env)

/-- The operands an arithmetic atom reads. -/
def arithInputs : BuiltinOp → List Term → List Term
  | .add, [_, x, y] | .sub, [_, x, y] => [x, y]
  | .neg, [_, x] | .addc, [_, x, _] | .mulc, [_, x, _] => [x]
  | _, _ => []

/-- The operands an atom resolves in an environment: a later one when the earlier ones have
resolved, and in arithmetic have a value. -/
inductive Resolves (ctx : EvalCtx) : Atom → Env → Term → Prop
  | lhs {op : CmpOp} {l r : Term} {e : Env} : Resolves ctx (.cmp op l r) e l
  | rhs {op : CmpOp} {l r : Term} {e : Env} {v : Resolved} :
      resolveEvalTerm ctx l e = .ok v → Resolves ctx (.cmp op l r) e r
  | first {op : BuiltinOp} {args : List Term} {x : Term} {rest : List Term} {e : Env} :
      arithInputs op args = x :: rest → Resolves ctx (.builtin op args) e x
  | second {op : BuiltinOp} {args : List Term} {x y : Term} {e : Env} {i : Int} :
      arithInputs op args = [x, y] →
      requireResolvedArith ctx.astGateOn op.name (x, resolveEvalTerm ctx x) e = .ok (some i) →
      Resolves ctx (.builtin op args) e y

/-- What `_eval_not_atom` checks before it runs a body. -/
def NotGuards (ctx : EvalCtx) (body : WhereExpr) (e : Env) : Prop :=
  let correlated := varsInNotBodies body.branches ∩ boundVars [e]
  normalizeNotBody body = .ok () ∧ (ctx.astGateOn = true ∨ correlated ≠ ∅) ∧
    checkCorrelated body.branches correlated = .ok ()

/-- One call of the evaluator makes another. -/
inductive Visits (ctx : EvalCtx) : Point → Point → Prop
  | atom (before after : List Atom) (done rest : List Env) {body : List Atom} {a : Atom}
      {e e' : Env} {out : List Env} :
      planBodyAtoms ctx.astGateOn id e.scope body = .ok (before ++ a :: after) →
      runPlanned (evalItems ctx before) [e] = .ok (done ++ e' :: rest) →
      evalAtom ctx a done = .ok out → Visits ctx (.body body e) (.atom a e')
  | branch (before after : List (List Atom)) {body : WhereExpr} {branch : List Atom} {e : Env} :
      NotGuards ctx body e → body.branches = before ++ branch :: after →
      existsNotBody ctx.astGateOn e (before.map (evalItems ctx)) = .ok false →
      Visits ctx (.atom (.not body) e) (.body branch e)
  | operand {a : Atom} {kind : AggKind} {target : Option Term} {filter : List Atom} {e : Env} :
      Resolves ctx a e (.agg kind target filter) →
      Visits ctx (.atom a e) (.agg kind target filter e)
  | filter {kind : AggKind} {target : Option Term} {filter : List Atom} {e : Env} :
      Visits ctx (.agg kind target filter e) (.body filter e)
  | target (done rest : List Env) {kind : AggKind} {t : Term} {filter : List Atom} {e e' : Env}
      {values : List Value} :
      kind ≠ .count → evalBody ctx filter [e] = .ok (done ++ e' :: rest) →
      targetValues (resolveEvalTerm ctx t) done = .ok (some values) →
      Visits ctx (.agg kind (some t) filter e) (.target t e')
  | nested {kind : AggKind} {target : Option Term} {filter : List Atom} {e : Env} :
      Visits ctx (.target (.agg kind target filter) e) (.agg kind target filter e)

open Schedule

/-! ## What an atom reads -/

/-- The operands of an atom are bound. One side is enough for an `eq`, which binds the other. -/
def OperandsBound (V : Scope) : Atom → Prop
  | .pred .. | .ruleref .. | .not _ => True
  | .cmp .eq lhs rhs => termKnownForPlan V lhs = true ∨ termKnownForPlan V rhs = true
  | .cmp _ lhs rhs => termKnownForPlan V lhs = true ∧ termKnownForPlan V rhs = true
  | .inn x _ => x ∈ V
  | .builtin op args => ∀ t ∈ arithInputs op args, termKnownForPlan V t = true

variable {N : NotNeeds}

end FactGraph.Rules
