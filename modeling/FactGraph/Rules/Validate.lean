import FactGraph.Lib.Check
import FactGraph.Rules.Ast

/-!
# `validate_where_ast`

The two passes of `core/rules/where_ast_validate.py` over a where AST: the shape pass (which
atoms may stand where) and the dataflow pass (which variables are bound when an atom is
reached). The evaluator drops an environment whose operand is unbound without a word, so the
dataflow pass is all that stands between a clause and a silently smaller result.

The `.origin` arguments, read only for the `path` of an error, are left out; the texts are the
source's.
-/

namespace FactGraph.Rules

open Check

/-! ## Capabilities -/

inductive Mode where
  | python | souffle
  deriving DecidableEq, Repr

inductive RulerefPolicy where
  | allow | requireResolved | forbid
  deriving DecidableEq, Repr

inductive NotBodyPolicy where
  | allow | requireCorrelated | forbidOr | forbid
  deriving DecidableEq, Repr

def RulerefPolicy.name : RulerefPolicy → String
  | .allow => "allow" | .requireResolved => "require_resolved" | .forbid => "forbid"

def NotBodyPolicy.name : NotBodyPolicy → String
  | .allow => "allow" | .requireCorrelated => "require_correlated"
  | .forbidOr => "forbid_or" | .forbid => "forbid"

/-- What `_capabilities_for_mode` builds; the field defaults are its defaults. -/
structure Caps where
  mode : Mode := .python
  builtinAllow : List BuiltinOp := [.add, .sub, .neg, .addc, .mulc]
  cmpAllow : List CmpOp := [.eq, .ne, .gt, .ge, .lt, .le]
  allowRuleref : Bool := true
  allowNotBodyRuleref : Bool := false
  rulerefPolicy : RulerefPolicy := .allow
  notBodyPolicy : NotBodyPolicy := .allow

/-- `capabilities={"allow_ruleref": False}`, the capabilities of `evaluate_where`. -/
def Caps.noRuleref : Caps := { allowRuleref := false }

/-! ## The shape pass -/

def Value.typeName : Value → String
  | .none => "NoneType" | .bool _ => "bool" | .int _ => "int"
  | .float _ => "float" | .str _ => "str" | .bytes _ => "bytes"

/-- `name.startswith("$") and len(name) >= 2`. -/
def isVarName (name : String) : Bool :=
  match name.toList with
  | '$' :: _ :: _ => true
  | _ => false

/-- `_AGGREGATE_FILTER_NOT_BODY_ALLOWED`: what an aggregate filter admits inside a `not`. -/
def Atom.filterKind : Atom → Bool
  | .pred .. | .cmp .. | .inn .. => true
  | .ruleref .. | .builtin .. | .not _ => false

/-- `_AGGREGATE_FILTER_TOP_LEVEL_ALLOWED`. -/
def Atom.filterTopKind : Atom → Bool
  | .not _ => true
  | a => a.filterKind

/-- The atoms `_validate_not_body_subset` admits. -/
def Atom.notBodyKind : Atom → Bool
  | .pred .. | .cmp .. | .inn .. | .builtin .. => true
  | .ruleref .. | .not _ => false

/-- `_validate_not_body_subset`. -/
def validateNotBodySubset (body : WhereExpr) : Except Err Unit :=
  each (each fun a => require a.notBodyKind
    (.astValidation "not body supports Pred/Cmp/In/Builtin atoms only")) body.branches

/-- `_validate_builtin_shape`. -/
def validateBuiltinShape (op : BuiltinOp) (args : List Term) : Except Err Unit :=
  let outputVar (z : Term) := require z.isVar (.astValidation s!"{op.name} output z must be Var")
  match op, args with
  | .add, [z, _, _] | .sub, [z, _, _] => outputVar z
  | .add, _ | .sub, _ => .error (.astValidation s!"{op.name} expects 3 args: (z, x, y)")
  | .neg, [z, _] => outputVar z
  | .neg, _ => .error (.astValidation "neg expects 2 args: (z, x)")
  | .addc, [z, _, c] | .mulc, [z, _, c] => do
      outputVar z
      match c with
      | .const _ => .ok ()
      | _ => .error (.astValidation s!"{op.name} constant operand c must be Const")
  | .addc, _ | .mulc, _ => .error (.astValidation s!"{op.name} expects 3 args: (z, x, c)")

/-- The checks of `_validate_aggregate_atom_shape` on an aggregate's target. -/
def validateAggregateTargetShape (kind : AggKind) (target : Option Term) : Except Err Unit := do
  match kind, target with
  | .count, some _ => .error (.astValidation "count target must be None")
  | .count, none => .ok ()
  | _, none => .error (.astValidation s!"{kind.name} target must not be None")
  | _, some _ => .ok ()
  match kind, target with
  | .sum, some (.const v) | .mean, some (.const v) =>
      require v.isNumeric
        (.astValidation s!"{kind.name} target Const must be int/float, got {v.typeName}")
  | _, _ => .ok ()

/-- The `Var` case of `_validate_term_shape`. -/
def validateVarShape (name : String) : Except Err Unit :=
  require (isVarName name) (.astValidation "Var.name must be '$' + non-empty identifier token")

mutual

/-- `_validate_term_shape`. The target of an aggregate is not entered. -/
def validateTermShape (allowAggregate : Bool) : Term → Except Err Unit
  | .var name => validateVarShape name
  | .const _ => .ok ()
  | .agg kind target filter => do
      require allowAggregate
        (.astValidation "AggregateAtom is only allowed in comparison/arithmetic term position")
      validateAggregateTargetShape kind target
      require (!filter.isEmpty) (.astValidation "aggregate filter must be non-empty")
      validateAggregateFilterShape 0 filter

def validateTermsShape (allowAggregate : Bool) : List Term → Except Err Unit
  | [] => .ok ()
  | t :: ts => do
      validateTermShape allowAggregate t
      validateTermsShape allowAggregate ts

/-- The loop of `_validate_aggregate_atom_shape` over the filter, from position `idx`. -/
def validateAggregateFilterShape (idx : Nat) : List Atom → Except Err Unit
  | [] => .ok ()
  | a :: as => do
      require a.filterTopKind
        (.astValidation s!"aggregate filter[{idx}] kind not allowed: {a.kind}")
      validateAggregateFilterAtomShape a
      validateAggregateFilterShape (idx + 1) as

/-- `_validate_aggregate_filter_atom_shape`. -/
def validateAggregateFilterAtomShape : Atom → Except Err Unit
  | .pred _ terms => validateTermsShape false terms
  | .cmp _ lhs rhs => do
      validateTermShape false lhs
      validateTermShape false rhs
  | .inn x _ => validateVarShape x
  | .not body => validateAggregateFilterNotBodyShape body
  | .ruleref .. => .error (.astValidation "aggregate filter atom kind not allowed: ruleref")
  | .builtin op _ => .error (.astValidation s!"aggregate filter atom kind not allowed: {op.name}")

def validateAggregateFilterNotBodyShape : WhereExpr → Except Err Unit
  | .and atoms => validateAggregateFilterNotAtomsShape atoms
  | .or branches => validateAggregateFilterNotBranchesShape branches

def validateAggregateFilterNotBranchesShape : List (List Atom) → Except Err Unit
  | [] => .ok ()
  | b :: bs => do
      validateAggregateFilterNotAtomsShape b
      validateAggregateFilterNotBranchesShape bs

def validateAggregateFilterNotAtomsShape : List Atom → Except Err Unit
  | [] => .ok ()
  | a :: as => do
      require a.filterKind
        (.astValidation s!"aggregate filter not body kind not allowed: {a.kind}")
      validateAggregateFilterAtomShape a
      validateAggregateFilterNotAtomsShape as

end

/-- The guards of `_validate_atom_shape` on a rule reference. -/
def validateRulerefShape (caps : Caps) (inNotBody : Bool) (ruleId : String)
    (version : Option String) (terms : List Term) : Except Err Unit := do
  require (!(caps.mode == .souffle &&
      (caps.rulerefPolicy == .requireResolved || caps.rulerefPolicy == .forbid)))
    (.astValidation
      s!"RuleRefAtom is not allowed in this mode (ruleref_policy={caps.rulerefPolicy.name})")
  require (!inNotBody || caps.allowNotBodyRuleref)
    (.astValidation "RuleRefAtom is not allowed in not body")
  require caps.allowRuleref (.astValidation "RuleRefAtom is not allowed in this mode")
  require (ruleId ≠ "") (.astValidation "RuleRefAtom.rule_id must be non-empty string")
  require (version ≠ some "")
    (.astValidation "RuleRefAtom.version must be non-empty string or None")
  require (!terms.isEmpty) (.astValidation "RuleRefAtom.terms must be non-empty")
  validateTermsShape false terms

/-- The mode guards of `_validate_atom_shape` on a `not`. -/
def validateNotPolicy (caps : Caps) (body : WhereExpr) : Except Err Unit := do
  require (!(caps.mode == .souffle && caps.notBodyPolicy == .forbid))
    (.astValidation
      s!"NotAtom is not allowed in this mode (not_body_policy={caps.notBodyPolicy.name})")
  match body with
  | .or _ =>
      require (!(caps.mode == .souffle && caps.notBodyPolicy == .forbidOr))
        (.astValidation
          s!"NotAtom OR body is not allowed in this mode (not_body_policy={caps.notBodyPolicy.name})")
  | .and _ => .ok ()

mutual

/-- `_validate_atom_shape`. -/
def validateAtomShape (caps : Caps) (inNotBody : Bool) : Atom → Except Err Unit
  | .pred predId terms => do
      require (predId ≠ "") (.astValidation "PredAtom.pred_id must be non-empty string")
      require (!terms.isEmpty) (.astValidation "PredAtom.terms must be non-empty")
      validateTermsShape false terms
  | .ruleref ruleId version terms => validateRulerefShape caps inNotBody ruleId version terms
  | .cmp op lhs rhs => do
      require (caps.cmpAllow.contains op) (.astValidation s!"CmpAtom op not allowed: {op.name}")
      validateTermShape true lhs
      validateTermShape true rhs
  | .inn x values => do
      validateVarShape x
      require (!values.isEmpty) (.astValidation "InAtom.values must be non-empty")
  | .builtin op args => do
      require (caps.builtinAllow.contains op)
        (.astValidation s!"BuiltinAtom op not allowed: {op.name}")
      validateTermsShape true args
      validateBuiltinShape op args
  | .not body => do
      validateNotPolicy caps body
      validateExprShape caps true body
      validateNotBodySubset body

def validateAtomsShape (caps : Caps) (inNotBody : Bool) : List Atom → Except Err Unit
  | [] => .ok ()
  | a :: as => do
      validateAtomShape caps inNotBody a
      validateAtomsShape caps inNotBody as

def validateBranchesShape (caps : Caps) (inNotBody : Bool) : List (List Atom) → Except Err Unit
  | [] => .ok ()
  | b :: bs => do
      require (!b.isEmpty) (.astValidation "AndExpr.atoms must be non-empty")
      validateAtomsShape caps inNotBody b
      validateBranchesShape caps inNotBody bs

/-- `_validate_expr_shape`. -/
def validateExprShape (caps : Caps) (inNotBody : Bool) : WhereExpr → Except Err Unit
  | .and atoms => do
      require (!atoms.isEmpty) (.astValidation "AndExpr.atoms must be non-empty")
      validateAtomsShape caps inNotBody atoms
  | .or branches => do
      require (!branches.isEmpty) (.astValidation "OrExpr.branches must be non-empty")
      validateBranchesShape caps inNotBody branches

end

/-! ## The dataflow pass -/

/-- `_FlowState`, without the `bound_outside` it only carries along. -/
structure FlowState where
  bound : Scope
  localBound : Scope
  freeUsed : Scope

/-- `_StepEffect`. -/
structure StepEffect where
  requires : Scope
  binds : Scope
  references : Scope

/-- `_aggregate_local_only_vars`. -/
def aggregateLocalOnlyVars (bound : Scope) (target : Option Term) (filter : List Atom) : Scope :=
  (varsInAtomList filter \ bound) \ varsInTarget target

/-- `_outer_visible_vars_in_term`. -/
def outerVisibleVarsInTerm (bound : Scope) : Term → Scope
  | .var x => {x}
  | .const _ => ∅
  | .agg _ target filter => varsInTarget target ∪ (varsInAtomList filter ∩ bound)

mutual

/-- `_outer_visible_vars_in_atom`. -/
def outerVisibleVarsInAtom (bound : Scope) : Atom → Scope
  | .pred _ terms => varsInTerms terms
  | .ruleref _ _ terms => varsInTerms terms
  | .cmp _ lhs rhs => outerVisibleVarsInTerm bound lhs ∪ outerVisibleVarsInTerm bound rhs
  | .inn x _ => {x}
  | .builtin _ args => args.foldr (fun t out => outerVisibleVarsInTerm bound t ∪ out) ∅
  | .not body => outerVisibleVarsInWhere bound body

def outerVisibleVarsInAtoms (bound : Scope) : List Atom → Scope
  | [] => ∅
  | a :: as => outerVisibleVarsInAtom bound a ∪ outerVisibleVarsInAtoms bound as

def outerVisibleVarsInBranches (bound : Scope) : List (List Atom) → Scope
  | [] => ∅
  | b :: bs => outerVisibleVarsInAtoms bound b ∪ outerVisibleVarsInBranches bound bs

def outerVisibleVarsInWhere (bound : Scope) : WhereExpr → Scope
  | .and atoms => outerVisibleVarsInAtoms bound atoms
  | .or branches => outerVisibleVarsInBranches bound branches

end

/-- `_validate_aggregate_leaks`. -/
def validateAggregateLeaks (atom : Atom) (bound : Scope) (subsequent : List Atom) :
    Except Err Unit :=
  let localOnly := (aggregatesInAtom atom).foldr
    (fun agg out => aggregateLocalOnlyVars bound agg.1 agg.2 ∪ out) ∅
  let leaked := localOnly ∩ outerVisibleVarsInAtoms bound subsequent
  require (leaked = ∅)
    (.astValidation s!"aggregate-local vars leak into outer scope: {joinScope leaked}")

/-- `_var_name`. -/
def varName : Term → Except Err String
  | .var x => .ok x
  | .const _ | .agg .. => .error (.astValidation "builtin output position must be Var")

/-- `_term_is_resolved`, on a term whose aggregate has passed `_validate_aggregate_target_binding`:
the variables an aggregate requires are a part of the bound ones. -/
def termIsResolved (bound : Scope) : Term → Bool
  | .var x => x ∈ bound
  | .const _ | .agg .. => true

/-- What an atom that only reads its operands does to the flow. -/
def StepEffect.reading (requires : Scope) : StepEffect :=
  { requires, binds := ∅, references := requires }

/-- The `eq` case of `_step_effect`, once both sides' requirements are known. -/
def eqStepEffect (bound : Scope) (lhs rhs : Term) (lhsVars rhsVars : Scope) :
    Except Err StepEffect :=
  if termIsResolved bound lhs && termIsResolved bound rhs then
    .ok (.reading (lhsVars ∪ rhsVars))
  else
    match termIsResolved bound lhs, termIsResolved bound rhs, lhs, rhs with
    | true, _, _, .var y => .ok { requires := lhsVars, binds := {y}, references := lhsVars }
    | _, true, .var x, _ => .ok { requires := rhsVars, binds := {x}, references := rhsVars }
    | _, _, _, _ => .error (.astValidation "eq requires at least one bound/constant side")

/-- The last part of the loop of `_validate_and_dataflow`. -/
def FlowState.step (boundOutside : Scope) (st : FlowState) (effect : StepEffect) :
    Except Err FlowState :=
  let missing := effect.requires \ st.bound
  if missing = ∅ then
    .ok {
      freeUsed := st.freeUsed ∪ ((effect.references ∩ boundOutside) \ st.localBound)
      bound := st.bound ∪ effect.binds
      localBound := st.localBound ∪ ((effect.binds \ st.bound) \ boundOutside) }
  else .error (.astValidation
    s!"atom requires variables bound earlier in branch: {joinScope missing}")

/-- Where a body starts: nothing of its own bound, nothing read from outside. -/
def FlowState.start (boundOutside : Scope) : FlowState :=
  { bound := boundOutside, localBound := ∅, freeUsed := ∅ }

mutual

/-- `_term_requires`; on an aggregate `_aggregate_correlated_requires` with the check
`_validate_aggregate_target_binding` it makes. A filter is analysed only when the target has a
variable. -/
def termRequires (bound : Scope) : Term → Except Err Scope
  | .var x => .ok {x}
  | .const _ => .ok ∅
  | .agg _ target filter => do
      if varsInTarget target = ∅ then .ok ()
      else
        let st ← validateAndDataflow bound (.start bound) filter
        let missing := varsInTarget target \ (bound ∪ st.bound)
        require (missing = ∅) (.astValidation
          s!"aggregate target variables must be bound by outer scope or aggregate filter: {joinScope missing}")
      .ok ((varsInTarget target ∪ varsInAtomList filter) ∩ bound)

/-- `_step_effect`. The last argument of `addc` and `mulc` is not read; a `not` and a rule
reference have no effect ("Binding semantics are deferred"). -/
def stepEffect (bound : Scope) : Atom → Except Err StepEffect
  | .pred _ terms =>
      .ok { requires := ∅, binds := varsInTerms terms, references := varsInTerms terms ∩ bound }
  | .ruleref .. => .ok (.reading ∅)
  | .inn x _ => .ok (.reading {x})
  | .builtin op args => do
      match op, args with
      | .add, [z, x, y] | .sub, [z, x, y] =>
          let rx ← termRequires bound x
          let ry ← termRequires bound y
          let out ← varName z
          .ok { requires := rx ∪ ry, binds := {out}, references := rx ∪ ry }
      | .neg, [z, x] | .addc, [z, x, _] | .mulc, [z, x, _] =>
          let req ← termRequires bound x
          let out ← varName z
          .ok { requires := req, binds := {out}, references := req }
      | _, _ => .error (.valueError "not enough values to unpack")
  | .cmp op lhs rhs => do
      let lhsVars ← termRequires bound lhs
      let rhsVars ← termRequires bound rhs
      match op with
      | .eq => eqStepEffect bound lhs rhs lhsVars rhsVars
      | .ne | .gt | .ge | .lt | .le => .ok (.reading (lhsVars ∪ rhsVars))
  | .not _ => .ok (.reading ∅)

/-- `_validate_and_dataflow`, from the state its loop has reached. -/
def validateAndDataflow (boundOutside : Scope) :
    FlowState → List Atom → Except Err FlowState
  | st, [] => .ok st
  | st, .not body :: rest => do
      validateNotDataflow st.bound body
      validateAndDataflow boundOutside st rest
  | st, atom :: rest => do
      validateAggregateLeaks atom st.bound rest
      let effect ← stepEffect st.bound atom
      let st' ← st.step boundOutside effect
      validateAndDataflow boundOutside st' rest

/-- The `free_used` of every branch of an OR body. -/
def validateBranchesDataflow (boundOutside : Scope) :
    List (List Atom) → Except Err Scope
  | [] => .ok ∅
  | b :: bs => do
      let st ← validateAndDataflow boundOutside (.start boundOutside) b
      let rest ← validateBranchesDataflow boundOutside bs
      .ok (st.freeUsed ∪ rest)

/-- `_validate_not_dataflow`. Free variables are outer references by construction, so its second
check, marked defensive in the source, cannot fail. -/
def validateNotDataflow (boundOutside : Scope) : WhereExpr → Except Err Unit
  | .and atoms => do
      let st ← validateAndDataflow boundOutside (.start boundOutside) atoms
      require (!(st.freeUsed = ∅))
        (.astValidation "not body must reference at least one outer bound variable")
  | .or branches => do
      require (!branches.isEmpty) (.astValidation "OrExpr.branches must be non-empty")
      let free ← validateBranchesDataflow boundOutside branches
      require (!(free = ∅))
        (.astValidation "not body must reference at least one outer bound variable")

end

/-- `_validate_expr_dataflow`, on a whole clause. -/
def validateExprDataflow (bound : Scope) (w : WhereExpr) : Except Err Unit := do
  require (!w.branches.isEmpty) (.astValidation "OrExpr.branches must be non-empty")
  each (fun b => do let _ ← validateAndDataflow bound (.start bound) b) w.branches

/-- `validate_where_ast`, from no initially bound variables. -/
def validateWhereAst (caps : Caps) (w : WhereExpr) : Except Err Unit := do
  validateExprShape caps false w
  validateExprDataflow ∅ w

end FactGraph.Rules
