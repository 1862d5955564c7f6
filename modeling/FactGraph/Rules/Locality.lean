import FactGraph.Lib.Enumerate
import FactGraph.Rules.Eval

/-!
# What a where clause means

The meaning of a clause, with no environments, index or loop in it. A **binding** maps variables
to values; an atom, read in the scope `V` of the variables bound before it, is a relation on
bindings:

* a predicate atom holds when some row joins with the binding, and the variables it binds take
  their cells;
* `eq`, `ne`, `in`, comparisons and arithmetic are constraints on values;
* `not` holds when no binding that extends the current one matches a branch of its body;
* an aggregate is a function of the list of the bindings that extend the current one and match
  its filter.

The current binding of an atom is the restriction to `V`. Beside the binding, a relation has the
list of the rows chosen, as positions. It is what makes the matches of an aggregate's filter a
list: two choices of rows that give one binding are two matches, and the choices order them.

The atoms of a body are taken in the order of `planBodyAtoms`, which is the order of the body
unless it has a system identity temporary.
-/

namespace FactGraph.Rules

open Enumeration

abbrev Binding := String → Option Value

/-- The binding an environment stands for. -/
def Env.binding (env : Env) : Binding := Dict.get? env

/-- The variables an environment binds. -/
def Env.scope (env : Env) : Scope := (Dict.keys env).toFinset

/-- Bindings of the same variables to equal values, as Python compares them. -/
def Binding.Eqv (σ τ : Binding) : Prop := ∀ x, (σ x).map Value.canon = (τ x).map Value.canon

/-- `σ` binds exactly the variables of `W`, and those of `V` as `τ` does. -/
def Extends (V : Scope) (τ : Binding) (W : Scope) (σ : Binding) : Prop :=
  (∀ x ∈ V, σ x = τ x) ∧ ∀ x, x ∈ W ↔ (σ x).isSome

/-- An atom: the scope it is read in, a binding, the rows chosen. -/
abbrev AtomRel := Scope → Binding → List Nat → Prop

/-- A term: the scope it is read in, a binding, what it resolves to. -/
abbrev TermRel := Scope → Binding → Resolved → Prop

/-- A body, each atom with its relation. -/
abbrev RelItems := List (Atom × AtomRel)

/-! ## Bodies -/

/-- The scope after some atoms. -/
def scopeAfter (V : Scope) (atoms : List Atom) : Scope := atoms.foldl updateBoundVarsForPlan V

/-- Every atom holds, each in the scope of those before it. -/
def chain : RelItems → Scope → Binding → List Nat → Prop
  | [], _, _, c => c = []
  | (a, rel) :: rest, V, σ, c =>
      ∃ c₁ c₂, c = c₁ ++ c₂ ∧ rel V σ c₁ ∧ chain rest (updateBoundVarsForPlan V a) σ c₂

/-- `σ` extends `τ` and matches the body by the rows `c`. -/
def Matches (astGateOn : Bool) (body : RelItems) (V : Scope) (τ : Binding) (c : List Nat)
    (σ : Binding) : Prop :=
  ∃ planned, planBodyAtoms astGateOn Prod.fst V body = .ok planned ∧
    Extends V τ (scopeAfter V (planned.map Prod.fst)) σ ∧ chain planned V σ c

/-! ## Predicates -/

/-- A row joins with a binding. A variable from outside must equal its cell; a variable the atom
binds is its first cell, and equals the others. -/
def Joins : Scope → List Term → Fact → Binding → Prop
  | _, [], _, _ | _, _ :: _, [], _ => True
  | V, .var x :: ts, cell :: cells, σ =>
      (if x ∈ V then ∃ v, σ x = some v ∧ v.eqv cell = true else σ x = some cell) ∧
        Joins (insert x V) ts cells σ
  | V, .const v :: ts, cell :: cells, σ => v.eqv cell = true ∧ Joins V ts cells σ
  | _, .agg .. :: _, _ :: _, _ => False

def predRel (viewFacts : ViewFacts) (predId : String) (terms : List Term) : AtomRel :=
  fun V σ c => ∃ facts i fact, viewFacts predId = some facts ∧ c = [i] ∧ facts[i]? = some fact ∧
    fact.length = terms.length ∧ Joins V terms fact σ

/-! ## Constraints -/

/-- The unbound side of an `eq` takes the value of the other. -/
def Takes (side : Term) (σ : Binding) (v : Value) : Prop :=
  match side with
  | .var x => σ x = some v
  | .const _ | .agg .. => False

/-- The two sides of an `eq`, resolved. -/
def EqHolds (lhs rhs : Term) (σ : Binding) : Resolved → Resolved → Prop
  | .value v, .value w => v.eqv w = true
  | .value v, .unbound => Takes rhs σ v
  | .unbound, .value w => Takes lhs σ w
  | .unbound, .unbound | .noValue, _ | _, .noValue => False

def eqRel (lhs rhs : Term × TermRel) : AtomRel := fun V σ c =>
  c = [] ∧ ∃ a b, lhs.2 V σ a ∧ rhs.2 V σ b ∧ EqHolds lhs.1 rhs.1 σ a b

def inRel (x : String) (values : List Value) : AtomRel := fun V σ c =>
  c = [] ∧ x ∈ V ∧ ∃ v, σ x = some v ∧ ∃ w ∈ values, v.eqv w = true

def neRel (lhs rhs : Term × TermRel) : AtomRel := fun V σ c =>
  c = [] ∧ ∃ v w, lhs.2 V σ (.value v) ∧ rhs.2 V σ (.value w) ∧ v.eqv w = false

def cmpRel (op : CmpOp) (lhs rhs : Term × TermRel) : AtomRel := fun V σ c =>
  c = [] ∧ ∃ v w a b, lhs.2 V σ (.value v) ∧ rhs.2 V σ (.value w) ∧
    coerceCmpInt op.name v = .ok a ∧ coerceCmpInt op.name w = .ok b ∧ cmpHolds op a b = true

/-- The integer an operand stands for. -/
def Operand (op : BuiltinOp) (x : Term × TermRel) (V : Scope) (σ : Binding) (i : Int) : Prop :=
  ∃ v, x.2 V σ (.value v) ∧ coerceArithInt op.name v = .ok i

/-- The result of an arithmetic atom. -/
def ArithValue (op : BuiltinOp) (args : List (Term × TermRel)) (V : Scope) (σ : Binding)
    (result : Int) : Prop :=
  match op, args with
  | .add, [_, x, y] => ∃ a b, Operand op x V σ a ∧ Operand op y V σ b ∧ result = a + b
  | .sub, [_, x, y] => ∃ a b, Operand op x V σ a ∧ Operand op y V σ b ∧ result = a - b
  | .neg, [_, x] => ∃ a, Operand op x V σ a ∧ result = -a
  | .addc, [_, x, c] => ∃ a b, Operand op x V σ a ∧ constOperand op.name c.1 = .ok b ∧ result = a + b
  | .mulc, [_, x, c] => ∃ a b, Operand op x V σ a ∧ constOperand op.name c.1 = .ok b ∧ result = a * b
  | _, _ => False

/-- The output of an arithmetic atom: it takes the result, or has it already. -/
def OutputIs (op : BuiltinOp) (z : Term) (V : Scope) (σ : Binding) (result : Int) : Prop :=
  match z with
  | .var x =>
      if x ∈ V then ∃ v, σ x = some v ∧ coerceArithInt op.name v = .ok result
      else σ x = some (.int result)
  | .const _ | .agg .. => False

def arithRel (op : BuiltinOp) (args : List (Term × TermRel)) : AtomRel := fun V σ c =>
  c = [] ∧ ∃ result, ArithValue op args V σ result ∧
    ∃ z, (args.map Prod.fst).head? = some z ∧ OutputIs op z V σ result

/-! ## Negation and aggregates -/

def notRel (astGateOn : Bool) (branches : List RelItems) : AtomRel := fun V σ c =>
  c = [] ∧ ¬ ∃ body ∈ branches, ∃ c' σ', Matches astGateOn body V σ c' σ'

/-- An aggregate of a list of bindings: of nothing, of a binding whose target has no value, of
the values of the target. -/
def AggregateIs (floats : FloatOps) (kind : AggKind) (target : Binding → Resolved → Prop)
    (found : List Binding) (r : Resolved) : Prop :=
  if kind = .count then r = .value (.int found.length)
  else if found = [] then r = if kind = .sum then .value (.int 0) else .noValue
  else
    ((∃ σ ∈ found, target σ .unbound ∨ target σ .noValue) ∧ r = .noValue) ∨
    ∃ values, List.Forall₂ (fun σ v => target σ (.value v)) found values ∧
      aggregateValues floats kind values = .ok r

/-- The value of an aggregate: over the bindings that extend the current one and match the
filter, one for each choice of rows, in the order of the rows. The target is read in the scope of
the extension. -/
def aggRel (ctx : EvalCtx) (kind : AggKind) (target : TermRel) (filter : RelItems) : TermRel :=
  fun V σ r => ∃ n found, Enumerates n found (Matches ctx.astGateOn filter V σ) ∧
    AggregateIs ctx.floats kind
      (fun σ' r' => ∃ W, (∀ x, x ∈ W ↔ (σ' x).isSome) ∧ target W σ' r') found r

/-- A variable has a value when it is in scope. -/
def varRel (x : String) : TermRel := fun V σ r =>
  if x ∈ V then ∃ v, σ x = some v ∧ r = .value v else r = .unbound

/-! ## Atoms and terms -/

mutual

def termRel (ctx : EvalCtx) : Term → TermRel
  | .var x => varRel x
  | .const v => fun _ _ r => r = .value v
  | .agg kind target filter => aggRel ctx kind (targetRel ctx target) (itemRels ctx filter)

def targetRel (ctx : EvalCtx) : Option Term → TermRel
  | none => fun _ _ r => r = .value .none
  | some t => termRel ctx t

def termRels (ctx : EvalCtx) : List Term → List (Term × TermRel)
  | [] => []
  | t :: ts => (t, termRel ctx t) :: termRels ctx ts

def atomRel (ctx : EvalCtx) : Atom → AtomRel
  | .pred predId terms => predRel ctx.viewFacts predId terms
  | .ruleref .. => fun _ _ _ => False
  | .cmp op lhs rhs =>
      let l := (lhs, termRel ctx lhs)
      let r := (rhs, termRel ctx rhs)
      match op with
      | .eq => eqRel l r
      | .ne => neRel l r
      | .gt | .ge | .lt | .le => cmpRel op l r
  | .inn x values => inRel x values
  | .builtin op args => arithRel op (termRels ctx args)
  | .not body => notRel ctx.astGateOn (branchRels ctx body)

def itemRels (ctx : EvalCtx) : List Atom → RelItems
  | [] => []
  | a :: as => (a, atomRel ctx a) :: itemRels ctx as

def itemRelsList (ctx : EvalCtx) : List (List Atom) → List RelItems
  | [] => []
  | b :: bs => itemRels ctx b :: itemRelsList ctx bs

def branchRels (ctx : EvalCtx) : WhereExpr → List RelItems
  | .and atoms => [itemRels ctx atoms]
  | .or branches => itemRelsList ctx branches

end

/-- The empty binding. -/
def Binding.empty : Binding := fun _ => none

/-- **A binding satisfies a body**: it binds what the body binds and matches it by some rows. -/
def Satisfies (ctx : EvalCtx) (body : List Atom) (σ : Binding) : Prop :=
  ∃ c, Matches ctx.astGateOn (itemRels ctx body) ∅ .empty c σ

/-!
## Scopes and locality

What an atom means in a scope `V` depends on the binding inside `V` and on what the atom binds,
and on nothing else. The composition of atoms rests on that: the rest of a body may go on
extending a binding without disturbing an atom that has been passed.

The relations of the semantics only ever look at a binding through a variable of the scope or
through `Extends V`, so locality needs no induction on the clause.
-/

/-! ## Environments and scopes -/

theorem Env.mem_scope {e : Env} {x : String} : x ∈ e.scope ↔ (e.binding x).isSome := by
  rw [Env.scope, List.mem_toFinset, Dict.mem_keys_iff, Option.isSome_iff_exists]
  rfl

theorem Env.notMem_scope {e : Env} {x : String} : x ∉ e.scope ↔ Dict.get? e x = none := by
  rw [Env.mem_scope, Env.binding, Option.not_isSome_iff_eq_none]

@[simp] theorem boundVars_singleton (e : Env) : boundVars [e] = e.scope := by
  simp [boundVars, Env.scope]

theorem Env.binding_set {e : Env} {x : String} {v : Value} :
    Env.binding (Dict.set e x v) = Function.update e.binding x (some v) := by
  funext y
  rw [Env.binding, Dict.get?_set, Function.update_apply]
  rfl

theorem Env.scope_set {e : Env} {x : String} {v : Value} :
    Env.scope (Dict.set e x v) = insert x e.scope := by
  ext y
  simp only [Env.scope, List.mem_toFinset, Dict.mem_keys_set, Finset.mem_insert]

/-- A binding whose domain is the scope of an environment has the scope. -/
theorem Env.scope_eq_of_forall {e : Env} {W : Scope}
    (h : ∀ x, x ∈ W ↔ (e.binding x).isSome) : e.scope = W := by
  ext x
  rw [Env.mem_scope, h]

theorem subset_updateBoundVars (V : Scope) (a : Atom) : V ⊆ updateBoundVarsForPlan V a :=
  Finset.subset_union_left

theorem subset_scopeAfter (V : Scope) (as : List Atom) : V ⊆ scopeAfter V as := by
  induction as generalizing V with
  | nil => exact Finset.Subset.refl V
  | cons a as ih => exact (subset_updateBoundVars V a).trans (ih _)

/-! ## Extensions -/

theorem Extends.refl {V : Scope} {τ : Binding} (h : ∀ x, x ∈ V ↔ (τ x).isSome) :
    Extends V τ V τ := ⟨fun _ _ => rfl, h⟩

theorem Extends.trans {V W U : Scope} {ρ σ τ : Binding} (hVW : V ⊆ W)
    (h : Extends V ρ W σ) (h' : Extends W σ U τ) : Extends V ρ U τ :=
  ⟨fun x hx => (h'.1 x (hVW hx)).trans (h.1 x hx), h'.2⟩

theorem extends_congr {V W : Scope} {τ τ' σ : Binding} (h : ∀ x ∈ V, τ x = τ' x) :
    Extends V τ W σ ↔ Extends V τ' W σ := by
  have hV : (∀ x ∈ V, σ x = τ x) ↔ ∀ x ∈ V, σ x = τ' x :=
    forall₂_congr fun x hx => by rw [h x hx]
  rw [Extends, Extends, hV]

/-- Forget what a scope does not name. -/
def Binding.restrict (σ : Binding) (W : Scope) : Binding := fun x => if x ∈ W then σ x else none

theorem Binding.restrict_of_mem {σ : Binding} {W : Scope} {x : String} (h : x ∈ W) :
    σ.restrict W x = σ x := if_pos h

/-- The part of an extension that a smaller scope names. -/
theorem Extends.restrict {V W U : Scope} {τ σ : Binding} (hVW : V ⊆ W) (hWU : W ⊆ U)
    (h : Extends V τ U σ) : Extends V τ W (σ.restrict W) ∧ Extends W (σ.restrict W) U σ := by
  refine ⟨⟨fun x hx => ?_, fun x => ?_⟩, fun x hx => (Binding.restrict_of_mem hx).symm, h.2⟩
  · rw [Binding.restrict_of_mem (hVW hx), h.1 x hx]
  · by_cases hx : x ∈ W
    · simp [Binding.restrict, hx, ← h.2, hWU hx]
    · simp [Binding.restrict, hx]

/-- An extension by nothing is the binding itself. -/
theorem Extends.eq_of_same_scope {V : Scope} {τ σ : Binding} (hτ : ∀ x, x ∈ V ↔ (τ x).isSome)
    (h : Extends V τ V σ) : σ = τ := by
  funext x
  by_cases hx : x ∈ V
  · exact h.1 x hx
  · have hσ : σ x = none := by simpa [h.2 x] using hx
    have hτ : τ x = none := by simpa [hτ x] using hx
    rw [hσ, hτ]

/-- An extension by one variable. -/
theorem Extends.eq_update {V : Scope} {τ σ : Binding} {x : String} {v : Value}
    (hτ : ∀ y, y ∈ V ↔ (τ y).isSome) (h : Extends V τ (insert x V) σ) (hx : σ x = some v) :
    σ = Function.update τ x (some v) := by
  funext y
  rw [Function.update_apply]
  by_cases hyx : y = x
  · rw [if_pos hyx, hyx, hx]
  rw [if_neg hyx]
  by_cases hy : y ∈ V
  · exact h.1 y hy
  · have hσ : σ y = none := by simpa [hyx, hy] using h.2 y
    have hτ : τ y = none := by simpa [hτ y] using hy
    rw [hσ, hτ]

/-! ## Locality -/

/-- What a term resolves to depends on the binding inside the scope. -/
def TermRel.Local (rel : TermRel) : Prop :=
  ∀ V (σ σ' : Binding) r, (∀ x ∈ V, σ x = σ' x) → (rel V σ r ↔ rel V σ' r)

/-- Whether an atom holds depends on the binding inside the scope after it. -/
def AtomRel.Local (a : Atom) (rel : AtomRel) : Prop :=
  ∀ V (σ σ' : Binding) c, (∀ x ∈ updateBoundVarsForPlan V a, σ x = σ' x) →
    (rel V σ c ↔ rel V σ' c)

theorem matches_congr {gate : Bool} {body : RelItems} {V : Scope} {τ τ' : Binding}
    (h : ∀ x ∈ V, τ x = τ' x) : Matches gate body V τ = Matches gate body V τ' := by
  funext c σ
  simp only [Matches, extends_congr h]

theorem varRel_local (x : String) : (varRel x).Local := by
  intro V σ σ' r h
  by_cases hx : x ∈ V
  · simp only [varRel, hx, if_true, h x hx]
  · simp only [varRel, hx, if_false]

theorem aggRel_local (ctx : EvalCtx) (kind : AggKind) (target : TermRel) (filter : RelItems) :
    (aggRel ctx kind target filter).Local := by
  intro V σ σ' r h
  simp only [aggRel, matches_congr h]

theorem termRel_local (ctx : EvalCtx) (t : Term) : (termRel ctx t).Local := by
  cases t with
  | var x => exact varRel_local x
  | const v => exact fun _ _ _ _ _ => Iff.rfl
  | agg kind target filter => exact aggRel_local ctx kind _ _

theorem joins_local {V : Scope} {ts : List Term} {fact : Fact} {σ σ' : Binding}
    (h : ∀ x ∈ V ∪ varTerms ts, σ x = σ' x) : Joins V ts fact σ ↔ Joins V ts fact σ' := by
  induction ts generalizing V fact with
  | nil => simp [Joins]
  | cons t ts ih =>
    cases fact with
    | nil => cases t <;> simp [Joins]
    | cons cell cells =>
      cases t with
      | var x =>
        have hrest : ∀ y ∈ insert x V ∪ varTerms ts, σ y = σ' y := fun y hy =>
          h y (by simpa [varTerms, or_assoc, or_left_comm] using hy)
        rw [Joins, Joins, ih hrest, h x (by simp [varTerms])]
      | const v => rw [Joins, Joins, ih (by simpa [varTerms] using h)]
      | agg kind target filter => rw [Joins, Joins]

theorem predRel_local (viewFacts : ViewFacts) (p : String) (ts : List Term) :
    (predRel viewFacts p ts).Local (.pred p ts) := by
  intro V σ σ' c h
  have hjoin : ∀ fact, Joins V ts fact σ ↔ Joins V ts fact σ' := fun fact =>
    joins_local (by simpa [updateBoundVarsForPlan, newlyBound] using h)
  simp only [predRel, hjoin]

/-- Inside the scope after an atom, two bindings agree on the scope before it. -/
theorem agree_before {V : Scope} {a : Atom} {σ σ' : Binding}
    (h : ∀ x ∈ updateBoundVarsForPlan V a, σ x = σ' x) : ∀ x ∈ V, σ x = σ' x :=
  fun x hx => h x (subset_updateBoundVars V a hx)

/-- A side of an `eq` that the other side binds. -/
theorem takes_local {V : Scope} {side other : Term} {σ σ' : Binding} {v : Value}
    (h : ∀ x ∈ V ∪ boundBySide (termKnownForPlan V other) side, σ x = σ' x)
    (hknown : termKnownForPlan V other = true) : Takes side σ v ↔ Takes side σ' v := by
  cases side with
  | var x =>
    rw [Takes, Takes, h x (by simp [boundBySide, hknown])]
  | const _ | agg _ _ _ => exact Iff.rfl

/-- A term that resolves is one the planner counts as known. -/
theorem known_of_value {ctx : EvalCtx} {V : Scope} {t : Term} {σ : Binding} {v : Value}
    (h : termRel ctx t V σ (.value v)) : termKnownForPlan V t = true := by
  cases t with
  | var x =>
    by_cases hx : x ∈ V
    · simp [termKnownForPlan, hx]
    · simp [termRel, varRel, hx] at h
  | const _ | agg _ _ _ => rfl

theorem eqRel_local (ctx : EvalCtx) (l r : Term) :
    (eqRel (l, termRel ctx l) (r, termRel ctx r)).Local (.cmp .eq l r) := by
  intro V σ σ' c h
  have hV := agree_before h
  have side : ∀ {a b}, termRel ctx l V σ' a → termRel ctx r V σ' b →
      (EqHolds l r σ a b ↔ EqHolds l r σ' a b) := by
    intro a b ha hb
    simp only [updateBoundVarsForPlan, newlyBound, Finset.mem_union] at h
    cases a with
    | unbound =>
      cases b with
      | value w =>
        exact takes_local (fun x hx => h x (by rw [Finset.mem_union] at hx; tauto))
          (known_of_value hb)
      | unbound | noValue => exact Iff.rfl
    | noValue => cases b <;> exact Iff.rfl
    | value v =>
      cases b with
      | unbound =>
        exact takes_local (fun x hx => h x (by rw [Finset.mem_union] at hx; tauto))
          (known_of_value ha)
      | value _ | noValue => exact Iff.rfl
  simp only [eqRel, termRel_local ctx l V σ σ' _ hV, termRel_local ctx r V σ σ' _ hV]
  refine and_congr_right fun _ => exists_congr fun a => exists_congr fun b => ?_
  exact and_congr_right fun ha => and_congr_right fun hb => side ha hb

theorem operand_local {op : BuiltinOp} {x : Term × TermRel} {V : Scope} {σ σ' : Binding}
    (hx : x.2.Local) (h : ∀ y ∈ V, σ y = σ' y) {i : Int} :
    Operand op x V σ i ↔ Operand op x V σ' i := by
  simp only [Operand, hx V σ σ' _ h]

theorem arithValue_local {op : BuiltinOp} {args : List (Term × TermRel)} {V : Scope}
    {σ σ' : Binding} (hargs : ∀ x ∈ args, x.2.Local) (h : ∀ y ∈ V, σ y = σ' y) {i : Int} :
    ArithValue op args V σ i ↔ ArithValue op args V σ' i := by
  have hop : ∀ x ∈ args, ∀ j, Operand op x V σ j ↔ Operand op x V σ' j := fun x hx _ =>
    operand_local (hargs x hx) h
  match args with
  | [] | [_] | _ :: _ :: _ :: _ :: _ => cases op <;> simp [ArithValue]
  | [_, x] =>
    have hx := hop x (by simp)
    cases op <;> simp [ArithValue, hx]
  | [_, x, y] =>
    have hx := hop x (by simp)
    have hy := hop y (by simp)
    cases op <;> simp [ArithValue, hx, hy]

theorem mem_termRels {ctx : EvalCtx} {ts : List Term} {x : Term × TermRel}
    (h : x ∈ termRels ctx ts) : x.2 = termRel ctx x.1 := by
  induction ts with
  | nil => simp [termRels] at h
  | cons t ts ih =>
    rw [termRels, List.mem_cons] at h
    rcases h with rfl | h
    · rfl
    · exact ih h

@[simp] theorem map_fst_termRels (ctx : EvalCtx) (ts : List Term) :
    (termRels ctx ts).map Prod.fst = ts := by
  induction ts with
  | nil => rfl
  | cons t ts ih => rw [termRels, List.map_cons, ih]

theorem outputIs_local {op : BuiltinOp} {args : List Term} {z : Term} {V : Scope}
    {σ σ' : Binding} {i : Int} (hz : args.head? = some z)
    (h : ∀ x ∈ updateBoundVarsForPlan V (.builtin op args), σ x = σ' x) :
    OutputIs op z V σ i ↔ OutputIs op z V σ' i := by
  cases z with
  | var x =>
    obtain ⟨ts, rfl⟩ : ∃ ts, args = .var x :: ts := by
      cases args with
      | nil => simp at hz
      | cons t ts => exact ⟨ts, by simpa using hz⟩
    rw [OutputIs, OutputIs, h x (by simp [updateBoundVarsForPlan, newlyBound, boundBySide])]
  | const _ | agg _ _ _ => exact Iff.rfl

theorem arithRel_local (ctx : EvalCtx) (op : BuiltinOp) (args : List Term) :
    (arithRel op (termRels ctx args)).Local (.builtin op args) := by
  intro V σ σ' c h
  have hargs : ∀ x ∈ termRels ctx args, x.2.Local := fun x hx => by
    rw [mem_termRels hx]
    exact termRel_local ctx x.1
  simp only [arithRel, map_fst_termRels, arithValue_local hargs (agree_before h)]
  refine and_congr_right fun _ => exists_congr fun i => and_congr_right fun _ => ?_
  exact exists_congr fun z => and_congr_right fun hz => outputIs_local hz h

theorem atomRel_local (ctx : EvalCtx) (a : Atom) : (atomRel ctx a).Local a := by
  cases a with
  | pred p ts => exact predRel_local ctx.viewFacts p ts
  | ruleref _ _ _ => exact fun _ _ _ _ _ => Iff.rfl
  | cmp op l r =>
    have hsides : ∀ V (σ σ' : Binding), (∀ x ∈ V, σ x = σ' x) → ∀ v,
        (termRel ctx l V σ v ↔ termRel ctx l V σ' v) ∧
          (termRel ctx r V σ v ↔ termRel ctx r V σ' v) := fun V σ σ' h v =>
      ⟨termRel_local ctx l V σ σ' v h, termRel_local ctx r V σ σ' v h⟩
    cases op with
    | eq => exact eqRel_local ctx l r
    | ne =>
      intro V σ σ' c h
      simp only [atomRel, neRel, (hsides V σ σ' (agree_before h) _).1,
        (hsides V σ σ' (agree_before h) _).2]
    | gt | ge | lt | le =>
      intro V σ σ' c h
      simp only [atomRel, cmpRel, (hsides V σ σ' (agree_before h) _).1,
        (hsides V σ σ' (agree_before h) _).2]
  | inn x values =>
    intro V σ σ' c h
    simp only [atomRel, inRel]
    refine and_congr_right fun _ => and_congr_right fun hx => ?_
    rw [agree_before h x hx]
  | builtin op args => exact arithRel_local ctx op args
  | not body =>
    intro V σ σ' c h
    simp only [atomRel, notRel, matches_congr (agree_before h)]

end FactGraph.Rules
