import FactGraph.Rules.Plan
import FactGraph.Rules.Validate

/-!
# `evaluate_where`

The evaluator of `core/rules/where_eval.py`. A body is run by taking a list of environments
through its planned atoms; an atom maps the environments it is given to those it keeps or
extends, in order, and may raise.

An atom *is* such a map here: `evalAtom` turns the syntax into an `AtomSem` by recursion on it,
and the plan then permutes the pairs of an atom and its map. So the recursion is on the clause
and the plan, which is not a part of the clause, never gets in its way.

`ast_gate_on` is the environment variable that switches the AST pass off; with it off, what is
dropped silently otherwise is an error.
-/

namespace FactGraph.Rules

open Check

/-- What an evaluation is given. -/
structure EvalCtx where
  viewFacts : ViewFacts
  floats : FloatOps
  astGateOn : Bool := true

/-- The pair `(known, value)` of `_resolve_eval_term`: `(False, None)`,
`(True, AggregateNoValue)` or `(True, value)`. -/
inductive Resolved where
  | unbound
  | noValue
  | value (v : Value)
  deriving DecidableEq, Repr

abbrev AtomSem := List Env → Except Err (List Env)

abbrev TermSem := Env → Except Err Resolved

/-- A body, each atom with its map. -/
abbrev Items := List (Atom × AtomSem)

/-! ## Running a body -/

/-- The variables bound in some environment. -/
def boundVars (envs : List Env) : Scope :=
  envs.foldr (fun env bound => (Dict.keys env).toFinset ∪ bound) ∅

/-- The loop of `_eval_body`. It stops at the first atom that leaves no environment, so an error
of a later atom does not show. -/
def runPlanned : Items → List Env → Except Err (List Env)
  | [], envs => .ok envs
  | (_, sem) :: rest, envs => do
      let envs' ← sem envs
      if envs'.isEmpty then .ok [] else runPlanned rest envs'

/-- `_eval_body`. -/
def runBody (astGateOn : Bool) (body : Items) (initialEnvs : List Env) :
    Except Err (List Env) := do
  let planned ← planBodyAtoms astGateOn Prod.fst (boundVars initialEnvs) body
  runPlanned planned initialEnvs

/-! ## Predicates -/

/-- The positions and values of `_pred_candidates_for_env`, from position `idx` on. -/
def lookupKey (env : Env) : Nat → List Term → List (Nat × Value)
  | _, [] => []
  | idx, .var x :: ts =>
      match Dict.get? env x with
      | some v => (idx, v) :: lookupKey env (idx + 1) ts
      | none => lookupKey env (idx + 1) ts
  | idx, .const c :: ts => (idx, c) :: lookupKey env (idx + 1) ts
  | idx, .agg .. :: ts => lookupKey env (idx + 1) ts

/-- `tuple(fact[pos] for pos in key_positions)`, as a dictionary key: equal values are one key. -/
def keyAt (positions : List Nat) (fact : Fact) : List Value :=
  positions.map fun pos => (fact.getD pos .none).canon

/-- The index `_pred_candidates_for_env` builds for one list of positions. -/
def buildIndex (positions : List Nat) (facts : List Fact) : List (List Value × List Fact) :=
  facts.foldl (fun index fact =>
    let key := keyAt positions fact
    Dict.set index key ((Dict.get? index key).getD [] ++ [fact])) []

/-- `_pred_candidates_for_env`. -/
def predCandidatesForEnv (facts : List Fact) (terms : List Term) (env : Env) : List Fact :=
  let key := lookupKey env 0 terms
  if key.isEmpty then facts
  else (Dict.get? (buildIndex (key.map Prod.fst) facts) (key.map fun p => p.2.canon)).getD []

/-- The innermost loop of `_eval_pred_atom`. A variable that is unbound, or bound to `None`, takes
the cell. -/
def matchTerms : List Term → Fact → Env → Option Env
  | .var x :: ts, cell :: cells, env =>
      match Dict.get? env x with
      | none | some .none => matchTerms ts cells (Dict.set env x cell)
      | some bound => if bound.eqv cell then matchTerms ts cells env else none
  | .const c :: ts, cell :: cells, env => if c.eqv cell then matchTerms ts cells env else none
  | .agg .. :: _, _ :: _, _ => none
  | [], _, env | _ :: _, [], env => some env

/-- `_eval_pred_atom`. -/
def evalPredAtom (viewFacts : ViewFacts) (predId : String) (terms : List Term) : AtomSem :=
  fun envs =>
    match viewFacts predId with
    | none => .error (.whereValidation s!"unknown predicate in where: {predId}")
    | some facts => do
        each (fun fact => require (fact.length == terms.length)
          (.whereValidation
            s!"arity mismatch for predicate {predId}: expected {terms.length}, got {fact.length}"))
          facts
        .ok (envs.flatMap fun env =>
          (predCandidatesForEnv facts terms env).filterMap fun fact => matchTerms terms fact env)

/-! ## Comparisons -/

/-- The name in the texts about an unbound variable. -/
def Term.varText : Term → String
  | .var x => x
  | .const _ | .agg .. => ""

/-- Bind the variable on one side of an `eq`. -/
def bindSide (env : Env) (side : Term) (v : Value) : List Env :=
  match side with
  | .var x => [Dict.set env x v]
  | .const _ | .agg .. => []

/-- What `_eval_eq_atom` does with an environment once both sides are resolved. -/
def eqOutcome (astGateOn : Bool) (lhs rhs : Term) (env : Env) :
    Resolved → Resolved → Except Err (List Env)
  | .noValue, _ | _, .noValue => .ok []
  | .value v, .value w => .ok (if v.eqv w then [env] else [])
  | .value v, .unbound => .ok (bindSide env rhs v)
  | .unbound, .value w => .ok (bindSide env lhs w)
  | .unbound, .unbound =>
      if astGateOn then .ok []
      else .error (.whereValidation "eq requires at least one bound/constant side")

/-- `_eval_eq_atom`. -/
def evalEqAtom (astGateOn : Bool) (lhs rhs : Term × TermSem) : AtomSem :=
  collect fun env => do
    let lhsValue ← lhs.2 env
    let rhsValue ← rhs.2 env
    eqOutcome astGateOn lhs.1 rhs.1 env lhsValue rhsValue

/-- `_eval_in_atom`. -/
def evalInAtom (astGateOn : Bool) (x : String) (values : List Value) : AtomSem :=
  collect fun env =>
    match Dict.get? env x with
    | none =>
        if astGateOn then .ok []
        else .error (.whereValidation s!"in variable must be bound before filter: {x}")
    | some v => .ok (if values.any v.eqv then [env] else [])

/-- A filter met a variable without a value. -/
def unboundSide (astGateOn : Bool) (kind : String) (side : Term) :
    Except Err (Option (Value × Value)) :=
  if astGateOn then .ok none
  else .error (.whereValidation s!"{kind} variable must be bound before filter: {side.varText}")

/-- The two values `_eval_ne_atom` and `_eval_cmp_atom` compare, if both are there. -/
def sideValues (astGateOn : Bool) (kind : String) (lhs rhs : Term) :
    Resolved → Resolved → Except Err (Option (Value × Value))
  | .noValue, _ | _, .noValue => .ok none
  | .unbound, _ => unboundSide astGateOn kind lhs
  | .value _, .unbound => unboundSide astGateOn kind rhs
  | .value v, .value w => .ok (some (v, w))

/-- The first half of `_eval_ne_atom` and `_eval_cmp_atom`. -/
def resolveSides (astGateOn : Bool) (kind : String) (lhs rhs : Term × TermSem) (env : Env) :
    Except Err (Option (Value × Value)) := do
  let lhsValue ← lhs.2 env
  let rhsValue ← rhs.2 env
  sideValues astGateOn kind lhs.1 rhs.1 lhsValue rhsValue

/-- `_eval_ne_atom`. -/
def evalNeAtom (astGateOn : Bool) (lhs rhs : Term × TermSem) : AtomSem :=
  collect fun env => do
    match ← resolveSides astGateOn "ne" lhs rhs env with
    | none => .ok []
    | some (v, w) => .ok (if v.eqv w then [] else [env])

/-- `_cmp_holds`. The other two operators are not handed to it. -/
def cmpHolds (op : CmpOp) (lhs rhs : Int) : Bool :=
  match op with
  | .gt => rhs < lhs
  | .ge => rhs ≤ lhs
  | .lt => lhs < rhs
  | .le => lhs ≤ rhs
  | .eq | .ne => false

/-- `_eval_cmp_atom`. -/
def evalCmpAtom (astGateOn : Bool) (op : CmpOp) (lhs rhs : Term × TermSem) : AtomSem :=
  collect fun env => do
    match ← resolveSides astGateOn op.name lhs rhs env with
    | none => .ok []
    | some (v, w) =>
        let a ← coerceCmpInt op.name v
        let b ← coerceCmpInt op.name w
        .ok (if cmpHolds op a b then [env] else [])

/-! ## Arithmetic -/

/-- `_require_resolved_arith`. -/
def requireResolvedArith (astGateOn : Bool) (kind : String) (x : Term × TermSem) (env : Env) :
    Except Err (Option Int) := do
  match ← x.2 env with
  | .noValue => .ok none
  | .unbound =>
      if astGateOn then .ok none
      else .error (.whereValidation
        s!"{kind} input variable must be bound before use: {x.1.varText}")
  | .value v =>
      let i ← coerceArithInt kind v
      .ok (some i)

/-- `_bind_or_check_result`. -/
def bindOrCheckResult (kind : String) (env : Env) (z : Term) (result : Int) :
    Except Err (List Env) :=
  match z with
  | .var x =>
      match Dict.get? env x with
      | none => .ok [Dict.set env x (.int result)]
      | some v => do
          let existing ← coerceArithInt kind v
          .ok (if existing = result then [env] else [])
  | .const _ | .agg .. => .ok []

/-- The operand `c` of `addc` and `mulc`. -/
def constOperand (kind : String) (c : Term) : Except Err Int :=
  match c with
  | .const v => coerceArithInt kind v
  | .var _ | .agg .. => .error (.whereValidation s!"{kind} constant operand must be literal")

/-- The result of an arithmetic atom in one environment, `none` when an operand has no value. -/
def arithResult (astGateOn : Bool) (op : BuiltinOp) (args : List (Term × TermSem)) (env : Env) :
    Except Err (Option Int) := do
  let operand := requireResolvedArith astGateOn op.name
  match op, args with
  | .add, [_, x, y] | .sub, [_, x, y] =>
      match ← operand x env with
      | none => .ok none
      | some xv =>
          match ← operand y env with
          | none => .ok none
          | some yv => .ok (some (if op = .add then xv + yv else xv - yv))
  | .neg, [_, x] =>
      match ← operand x env with
      | none => .ok none
      | some xv => .ok (some (-xv))
  | .addc, [_, x, c] | .mulc, [_, x, c] =>
      match ← operand x env with
      | none => .ok none
      | some xv =>
          let cv ← constOperand op.name c.1
          .ok (some (if op = .addc then xv + cv else xv * cv))
  | _, _ => .error (.valueError "not enough values to unpack")

/-- `_eval_arith_atom`. -/
def evalArithAtom (astGateOn : Bool) (op : BuiltinOp) (args : List (Term × TermSem)) : AtomSem :=
  collect fun env => do
    match ← arithResult astGateOn op args env with
    | none => .ok []
    | some result =>
        match args with
        | [] => .ok []
        | z :: _ => bindOrCheckResult op.name env z.1 result

/-! ## Negation -/

/-- `_exists_not_body`: the first body with an environment left settles it. -/
def existsNotBody (astGateOn : Bool) (env : Env) : List Items → Except Err Bool
  | [] => .ok false
  | body :: rest => do
      let envs ← runBody astGateOn body [env]
      if envs.isEmpty then existsNotBody astGateOn env rest else .ok true

/-- The check of `_eval_not_atom` on the branches of an OR body: each mentions every correlated
variable. -/
def checkCorrelated (branches : List (List Atom)) (correlated : Scope) : Except Err Unit :=
  if 1 < branches.length ∧ correlated.Nonempty then
    each (fun branch =>
      let missing := correlated \ visibleVarsInAtoms ∅ branch
      require (missing = ∅) (.whereValidation
        s!"not OR branch must reference all correlated variables; missing: {joinScope missing}"))
      branches
  else .ok ()

/-- `_eval_not_atom`, given the maps of the branches. -/
def evalNotAtom (astGateOn : Bool) (body : WhereExpr) (branches : List Items) : AtomSem :=
  fun envs => do
    normalizeNotBody body
    let vars := varsInNotBodies body.branches
    collect (fun env => do
      let correlated := vars ∩ boundVars [env]
      require (astGateOn || !(correlated = ∅))
        (.whereValidation "not body must reference at least one outer bound variable")
      checkCorrelated body.branches correlated
      let found ← existsNotBody astGateOn env branches
      .ok (if found then [] else [env])) envs

/-! ## Aggregates -/

/-- `sum(target_values)`. -/
def sumValues (floats : FloatOps) (values : List Value) : Except Err Value :=
  match values.mapM (fun | .int i => some i | _ => Option.none) with
  | some ints => .ok (.int ints.sum)
  | Option.none => do
      let q ← floats.sum values
      .ok (.float q)

/-- `min()` or `max()`: a later value replaces the best one when it beats it. -/
def extremum (beats : Value → Value → Option Bool) : List Value → Option Value
  | [] => Option.none
  | v :: vs => vs.foldlM (fun best w => (beats w best).map fun b => if b then w else best) v

/-- The last part of `_resolve_aggregate_term_for_env`, on the values of the target. -/
def aggregateValues (floats : FloatOps) (kind : AggKind) (values : List Value) :
    Except Err Resolved := do
  match kind with
  | .count => .ok (.value (.int values.length))
  | .sum =>
      if values.all Value.isNumeric then
        let s ← sumValues floats values
        .ok (.value s)
      else .ok .noValue
  | .mean =>
      if values.all Value.isNumeric then
        let s ← sumValues floats values
        let q ← floats.trueDiv s values.length
        .ok (.value (.float q))
      else .ok .noValue
  | .min => .ok (((extremum Value.lt? values).map Resolved.value).getD .noValue)
  | .max => .ok (((extremum (fun w v => v.lt? w) values).map Resolved.value).getD .noValue)

/-- The loop that collects the values of the target; `none` once one of them has none. -/
def targetValues (target : TermSem) : List Env → Except Err (Option (List Value))
  | [] => .ok (some [])
  | env :: rest => do
      match ← target env with
      | .unbound | .noValue => .ok none
      | .value v =>
          let vs ← targetValues target rest
          .ok (vs.map (v :: ·))

/-- `_resolve_aggregate_term_for_env`, given the maps of the target and the filter. -/
def resolveAggregate (ctx : EvalCtx) (kind : AggKind) (target : TermSem) (filter : Items) :
    TermSem := fun env => do
  let matched ← runBody ctx.astGateOn filter [env]
  if kind = .count then .ok (.value (.int matched.length))
  else if matched.isEmpty then .ok (if kind = .sum then .value (.int 0) else .noValue)
  else
    match ← targetValues target matched with
    | none => .ok .noValue
    | some values => aggregateValues ctx.floats kind values

/-- `_resolve`, on a variable. -/
def resolveVar (env : Env) (x : String) : Resolved :=
  match Dict.get? env x with
  | some v => .value v
  | none => .unbound

/-! ## Atoms and terms -/

mutual

/-- `_resolve_eval_term`. -/
def resolveEvalTerm (ctx : EvalCtx) : Term → TermSem
  | .var x => fun env => .ok (resolveVar env x)
  | .const v => fun _ => .ok (.value v)
  | .agg kind target filter =>
      resolveAggregate ctx kind (resolveTarget ctx target) (evalItems ctx filter)

/-- The target of an aggregate; a missing one is the literal `None`. -/
def resolveTarget (ctx : EvalCtx) : Option Term → TermSem
  | none => fun _ => .ok (.value .none)
  | some t => resolveEvalTerm ctx t

def resolveEvalTerms (ctx : EvalCtx) : List Term → List (Term × TermSem)
  | [] => []
  | t :: ts => (t, resolveEvalTerm ctx t) :: resolveEvalTerms ctx ts

/-- The dispatch of `_eval_body`. -/
def evalAtom (ctx : EvalCtx) : Atom → AtomSem
  | .pred predId terms => evalPredAtom ctx.viewFacts predId terms
  | .ruleref .. => fun _ => .error (.whereValidation "unsupported atom kind: ruleref")
  | .cmp op lhs rhs =>
      let l := (lhs, resolveEvalTerm ctx lhs)
      let r := (rhs, resolveEvalTerm ctx rhs)
      match op with
      | .eq => evalEqAtom ctx.astGateOn l r
      | .ne => evalNeAtom ctx.astGateOn l r
      | .gt | .ge | .lt | .le => evalCmpAtom ctx.astGateOn op l r
  | .inn x values => evalInAtom ctx.astGateOn x values
  | .builtin op args => evalArithAtom ctx.astGateOn op (resolveEvalTerms ctx args)
  | .not body => evalNotAtom ctx.astGateOn body (evalBranches ctx body)

def evalItems (ctx : EvalCtx) : List Atom → Items
  | [] => []
  | a :: as => (a, evalAtom ctx a) :: evalItems ctx as

def evalItemsList (ctx : EvalCtx) : List (List Atom) → List Items
  | [] => []
  | b :: bs => evalItems ctx b :: evalItemsList ctx bs

def evalBranches (ctx : EvalCtx) : WhereExpr → List Items
  | .and atoms => [evalItems ctx atoms]
  | .or branches => evalItemsList ctx branches

end

/-- `_eval_body`, on atoms. -/
def evalBody (ctx : EvalCtx) (body : List Atom) (initialEnvs : List Env) :
    Except Err (List Env) := runBody ctx.astGateOn (evalItems ctx body) initialEnvs

/-! ## Bindings -/

/-- `tuple(sorted(binding.items(), key=lambda item: item[0]))`. -/
def bindingKey (env : Env) : List (String × Value) :=
  env.insertionSort fun p q => p.1 ≤ q.1

/-- The key as the set `seen` compares it: equal values are one value. -/
def seenKey (env : Env) : List (String × Value) :=
  (bindingKey env).map fun p => (p.1, p.2.canon)

/-- Keep the first of each class of equal bindings. -/
def dedupBindings (envs : List Env) : List Env :=
  envs.foldl (fun kept env =>
    if kept.any fun e => seenKey e = seenKey env then kept else kept ++ [env]) []

/-- `<` between two keys of the final sort: the first items that differ decide. -/
def keyLt? : List (String × Value) → List (String × Value) → Option Bool
  | [], [] => some false
  | [], _ :: _ => some true
  | _ :: _, [] => some false
  | p :: ps, q :: qs =>
      if p.1 ≠ q.1 then some (decide (p.1 < q.1))
      else if p.2.eqv q.2 then keyLt? ps qs
      else p.2.lt? q.2

/-- The final sort. A comparison sort of keys that are pairwise different cannot avoid comparing
a pair whose order nothing else decides, so it raises exactly when some pair is unordered. -/
def sortBindings (envs : List Env) : Except Err (List Env) :=
  if envs.all fun e => envs.all fun e' => (keyLt? (bindingKey e) (bindingKey e')).isSome then
    .ok (envs.insertionSort fun e e' => keyLt? (bindingKey e') (bindingKey e) ≠ some true)
  else .error (.typeError "'<' not supported between instances")

/-! ## A clause -/

/-- `_adapt_where_ast_error`. -/
def adaptWhereAstError {α : Type} : Except Err α → Except Err α
  | .error (.astValidation msg) => .error (.whereValidation msg)
  | r => r

/-- The AST pass, when it is switched on. -/
def whereAstGate (astGateOn : Bool) (w : WhereExpr) : Except Err Unit :=
  if astGateOn then adaptWhereAstError (validateWhereAst .noRuleref w) else .ok ()

/-- The bindings of every branch, in order. -/
def evalBranchBindings (ctx : EvalCtx) (w : WhereExpr) : Except Err (List Env) :=
  collect (fun b => evalBody ctx b [[]]) w.branches

/-- `evaluate_where`, without overlays. -/
def evaluateWhere (ctx : EvalCtx) (w : WhereExpr) : Except Err (List Env) := do
  whereAstGate ctx.astGateOn w
  normalizeWhere w
  let bindings ← evalBranchBindings ctx w
  sortBindings (dedupBindings bindings)

/-- A view of one predicate with one row. -/
def oneRow (predId : String) (row : Fact) : EvalCtx where
  viewFacts p := if p = predId then some [row] else none
  floats := .exact

end FactGraph.Rules
