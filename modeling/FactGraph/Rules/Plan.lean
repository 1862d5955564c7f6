import Mathlib.Data.Finset.Basic
import Mathlib.Data.Finset.Card
import Mathlib.Data.List.InsertIdx
import FactGraph.Lib.Check
import FactGraph.Rules.Ast

/-!
# `_normalize_where`

The evaluator does not trust the AST pass: before it runs a body it checks every atom again with
`_validate_atom`, on the raw tuples and with tests of its own. The two passes disagree on purpose
in places — a float or `None` literal is a fine `Const` for the AST and no literal here — so a
clause that `validate_where_ast` accepts may still be refused when it is evaluated.

A `not` body is checked later than the rest, by `_normalize_not_body`, when the atom is planned
or run.
-/

namespace FactGraph.Rules

open Check

/-- The kinds `_normalize_not_body` admits. -/
def Atom.evalNotKind : Atom → Bool
  | .pred .. | .cmp .. | .inn .. | .builtin .. => true
  | .ruleref .. | .not _ => false

/-- The kinds `_validate_eval_term` admits in an aggregate filter. -/
def Atom.evalFilterKind : Atom → Bool
  | .pred .. | .cmp .. | .inn .. | .not _ => true
  | .ruleref .. | .builtin .. => false

/-- The checks of `_validate_eval_term` on an aggregate's target. -/
def validateEvalTarget (kind : AggKind) (target : Option Term) : Except Err Unit :=
  match kind, target with
  | .count, none | .count, some (.const .none) => .ok ()
  | .count, some _ => .error (.whereValidation "count aggregate target must be None")
  | _, none | _, some (.const .none) =>
      .error (.whereValidation s!"{kind.name} aggregate target must not be None")
  | .sum, some (.const (.bool _)) | .mean, some (.const (.bool _)) =>
      .error (.whereValidation s!"{kind.name} aggregate target must not be bool")
  | .sum, some (.const v) | .mean, some (.const v) =>
      require (!v.isLiteral || v.isNumeric)
        (.whereValidation s!"{kind.name} aggregate literal target must be numeric")
  | _, _ => .ok ()

/-- `_is_var(term) or _is_aggregate_term(term)`. -/
def Term.isVarOrAgg (t : Term) : Bool := t.isVar || t.isAgg

/-- The test `gt`, `ge`, `lt` and `le` make after their terms. -/
def validateCmpSides (op : CmpOp) (lhs rhs : Term) : Except Err Unit :=
  match op with
  | .eq | .ne => .ok ()
  | .gt | .ge | .lt | .le =>
      require (lhs.isVarOrAgg || rhs.isVarOrAgg)
        (.whereValidation s!"{op.name} requires at least one variable side")

/-- The last operand of `addc` and `mulc`. -/
def validateConstOperand (op : BuiltinOp) (c : Term) : Except Err Unit :=
  match c with
  | .const v => do
      require v.isLiteral (.whereValidation s!"{op.name} constant operand must be literal")
      let _ ← coerceArithInt op.name v
      .ok ()
  | .var _ | .agg .. => .error (.whereValidation s!"{op.name} constant operand must be literal")

/-- The output of an arithmetic atom. -/
def validateArithOutput (op : BuiltinOp) (z : Term) : Except Err Unit :=
  require z.isVar (.whereValidation s!"{op.name} output must be variable")

/-- The arity error of `_validate_arith_atom`. -/
def arithArityError : BuiltinOp → Err
  | .add => .whereValidation "add atom must be ('add', z, x, y)"
  | .sub => .whereValidation "sub atom must be ('sub', z, x, y)"
  | .neg => .whereValidation "neg atom must be ('neg', z, x)"
  | .addc => .whereValidation "addc atom must be ('addc', z, x, c)"
  | .mulc => .whereValidation "mulc atom must be ('mulc', z, x, c)"

mutual

/-- `_validate_eval_term`, where aggregates are allowed (every caller allows them). -/
def validateEvalTerm : Term → Except Err Unit
  | .var _ => .ok ()
  | .const v =>
      require v.isLiteral
        (.whereValidation "term must be variable, literal, or aggregate term")
  | .agg kind target filter => do
      validateEvalTarget kind target
      require (!filter.isEmpty) (.whereValidation "aggregate filter must be non-empty list")
      validateFilterAtoms filter

/-- The loop of `_validate_eval_term` over an aggregate's filter. -/
def validateFilterAtoms : List Atom → Except Err Unit
  | [] => .ok ()
  | a :: as => do
      let nested ← rawAtomContainsAggregate a
      require (!nested) (.whereValidation "aggregate filter must not contain aggregate terms")
      validateAtom a
      require a.evalFilterKind (.whereValidation "aggregate filter supports scalar atoms only")
      validateFilterAtoms as

/-- `_raw_atom_contains_aggregate`: an arithmetic atom counts as one. -/
def rawAtomContainsAggregate : Atom → Except Err Bool
  | .pred _ terms => .ok (terms.any Term.isAgg)
  | .ruleref .. | .inn .. => .ok false
  | .cmp _ lhs rhs => .ok (lhs.isAgg || rhs.isAgg)
  | .builtin .. => .ok true
  | .not body => do
      normalizeNotBody body
      rawWhereContainsAggregate body

def rawWhereContainsAggregate : WhereExpr → Except Err Bool
  | .and atoms => rawAtomsContainAggregate atoms
  | .or branches => rawBranchesContainAggregate branches

def rawBranchesContainAggregate : List (List Atom) → Except Err Bool
  | [] => .ok false
  | b :: bs => do
      let found ← rawAtomsContainAggregate b
      if found then .ok true else rawBranchesContainAggregate bs

def rawAtomsContainAggregate : List Atom → Except Err Bool
  | [] => .ok false
  | a :: as => do
      let found ← rawAtomContainsAggregate a
      if found then .ok true else rawAtomsContainAggregate as

/-- `_validate_atom`. -/
def validateAtom : Atom → Except Err Unit
  | .pred _ terms =>
      require (!terms.any Term.isAgg)
        (.whereValidation "aggregate terms are not allowed in pred terms")
  | .ruleref .. => .error (.whereValidation "unsupported atom kind: ruleref")
  | .cmp op lhs rhs => do
      validateEvalTerm lhs
      validateEvalTerm rhs
      validateCmpSides op lhs rhs
  | .inn .. => .ok ()
  | .builtin op args => do
      match op, args with
      | .add, [z, x, y] | .sub, [z, x, y] =>
          validateArithOutput op z
          validateEvalTerm x
          validateEvalTerm y
      | .neg, [z, x] =>
          validateArithOutput op z
          validateEvalTerm x
      | .addc, [z, x, c] | .mulc, [z, x, c] =>
          validateArithOutput op z
          validateEvalTerm x
          validateConstOperand op c
      | _, _ => .error (arithArityError op)
  | .not _ => .ok ()

/-- `_normalize_not_body`; the bodies it returns are the branches of the body it is given. -/
def normalizeNotBody : WhereExpr → Except Err Unit
  | .and atoms => do
      require (!atoms.isEmpty) (.whereValidation "not body must be non-empty list")
      validateNotAtoms atoms
  | .or branches => do
      require (!branches.isEmpty) (.whereValidation "not body must be non-empty list")
      validateNotBranches branches

def validateNotBranches : List (List Atom) → Except Err Unit
  | [] => .ok ()
  | b :: bs => do
      require (!b.isEmpty) (.whereValidation "not OR branch must not be empty")
      validateNotAtoms b
      validateNotBranches bs

/-- `validate_not_atom`, on every atom of a body. -/
def validateNotAtoms : List Atom → Except Err Unit
  | [] => .ok ()
  | a :: as => do
      require a.evalNotKind
        (.whereValidation "not body supports pred/eq/in/cmp/arithmetic atoms only")
      validateAtom a
      validateNotAtoms as

end

/-- `_normalize_where`; the bodies it returns are the branches of the clause. -/
def normalizeWhere (w : WhereExpr) : Except Err Unit :=
  match w with
  | .and atoms => do
      require (!atoms.isEmpty) (.whereValidation "where must be non-empty list")
      each validateAtom atoms
  | .or branches => do
      require (!branches.isEmpty) (.whereValidation "where must be non-empty list")
      each (fun b => do
        require (!b.isEmpty) (.whereValidation "where OR branch must not be empty")
        each validateAtom b) branches

/-!
## `_plan_body_atoms`

The evaluator runs the atoms of a body in the order this file chooses. A body without a system
identity temporary keeps its order. In a body with one, the next atom is the *ready* atom of the
highest score, the earliest on a tie, and the first that remains when none is ready.

Everything is decided from the atoms and the set of variables bound so far, never from rows or
values: the plan of a body is a function of the scope it starts in. Planning reads only the key
of an item, so it permutes whatever the items carry along.
-/

/-! ## Variables as the planner sees them -/

/-- `_term_known_for_plan`. -/
def termKnownForPlan (bound : Scope) : Term → Bool
  | .var x => x ∈ bound
  | .const _ | .agg .. => true

/-- The variables among the terms of a predicate atom. -/
def varTerms : List Term → Scope
  | [] => ∅
  | .var x :: ts => insert x (varTerms ts)
  | .const _ :: ts | .agg .. :: ts => varTerms ts

/-- What a side of an `eq` gains when the other side is known. -/
def boundBySide (other : Bool) : Term → Scope
  | .var x => if other then {x} else ∅
  | .const _ | .agg .. => ∅

/-- The variables an atom adds to the bound ones. -/
def newlyBound (bound : Scope) : Atom → Scope
  | .pred _ terms => varTerms terms
  | .cmp .eq lhs rhs =>
      boundBySide (termKnownForPlan bound rhs) lhs ∪ boundBySide (termKnownForPlan bound lhs) rhs
  | .builtin _ (z :: _) => boundBySide true z
  | .cmp .. | .builtin _ [] | .inn .. | .not _ | .ruleref .. => ∅

/-- `_update_bound_vars_for_plan`, and the same update inside `_vars_in_atoms`. -/
def updateBoundVarsForPlan (bound : Scope) (a : Atom) : Scope := bound ∪ newlyBound bound a

theorem boundBySide_false (t : Term) : boundBySide false t = ∅ := by
  cases t <;> rfl

/-- A known term has nothing to gain. -/
theorem boundBySide_subset {V : Scope} {t : Term} (h : termKnownForPlan V t = true) (b : Bool) :
    boundBySide b t ⊆ V := by
  cases t <;> cases b <;> simp_all [boundBySide, termKnownForPlan]

theorem update_eq_of_known {V : Scope} {l r : Term} (hl : termKnownForPlan V l = true)
    (hr : termKnownForPlan V r = true) : updateBoundVarsForPlan V (.cmp .eq l r) = V :=
  Finset.union_eq_left.mpr
    (Finset.union_subset (boundBySide_subset hl _) (boundBySide_subset hr _))

theorem update_eq_var_left {V : Scope} {x : String} {r : Term} (hx : x ∉ V)
    (hr : termKnownForPlan V r = true) :
    updateBoundVarsForPlan V (.cmp .eq (.var x) r) = insert x V := by
  have hknown : termKnownForPlan V (.var x) = false := by simp [termKnownForPlan, hx]
  rw [updateBoundVarsForPlan, newlyBound, hr, hknown, boundBySide_false, Finset.union_empty]
  exact Finset.union_comm V {x}

theorem update_eq_var_right {V : Scope} {x : String} {l : Term} (hx : x ∉ V)
    (hl : termKnownForPlan V l = true) :
    updateBoundVarsForPlan V (.cmp .eq l (.var x)) = insert x V := by
  have hknown : termKnownForPlan V (.var x) = false := by simp [termKnownForPlan, hx]
  rw [updateBoundVarsForPlan, newlyBound, hl, hknown, boundBySide_false, Finset.empty_union]
  exact Finset.union_comm V {x}

mutual

/-- `_visible_vars_in_term`. -/
def visibleVarsInTerm (bound : Scope) : Term → Scope
  | .var x => {x}
  | .const _ => ∅
  | .agg _ target filter => visibleVarsInTarget bound target ∪ (visibleVarsInAtoms ∅ filter ∩ bound)

def visibleVarsInTarget (bound : Scope) : Option Term → Scope
  | none => ∅
  | some t => visibleVarsInTerm bound t

def visibleVarsInTerms (bound : Scope) : List Term → Scope
  | [] => ∅
  | t :: ts => visibleVarsInTerm bound t ∪ visibleVarsInTerms bound ts

/-- The branches of the loop of `_vars_in_atoms`; it has none for `not`. -/
def visibleVarsInAtom (bound : Scope) : Atom → Scope
  | .pred _ terms => varTerms terms
  | .cmp _ lhs rhs => visibleVarsInTerm bound lhs ∪ visibleVarsInTerm bound rhs
  | .inn x _ => {x}
  | .builtin _ args => visibleVarsInTerms bound args
  | .not _ | .ruleref .. => ∅

/-- `_vars_in_atoms`, from the bound variables its loop has reached. -/
def visibleVarsInAtoms (bound : Scope) : List Atom → Scope
  | [] => ∅
  | a :: as => visibleVarsInAtom bound a ∪ visibleVarsInAtoms (updateBoundVarsForPlan bound a) as

end

/-- `_vars_in_not_bodies`. -/
def varsInNotBodies (bodies : List (List Atom)) : Scope :=
  bodies.foldr (fun b found => visibleVarsInAtoms ∅ b ∪ found) ∅

/-! ## Readiness and score -/

/-- `_atom_ready_for_eval`. -/
def atomReadyForEval (astGateOn : Bool) (bound : Scope) : Atom → Except Err Bool
  | .pred .. | .ruleref .. => .ok true
  | .cmp .eq lhs rhs =>
      .ok (!astGateOn || termKnownForPlan bound lhs || termKnownForPlan bound rhs)
  | .inn x _ => .ok (!astGateOn || x ∈ bound)
  | .cmp _ lhs rhs =>
      .ok (!astGateOn || (termKnownForPlan bound lhs && termKnownForPlan bound rhs))
  | .builtin op args =>
      match op, args with
      | .add, [_, x, y] | .sub, [_, x, y] =>
          .ok (!astGateOn || (termKnownForPlan bound x && termKnownForPlan bound y))
      | .neg, [_, x] | .addc, [_, x, _] | .mulc, [_, x, _] =>
          .ok (!astGateOn || termKnownForPlan bound x)
      | _, _ => .error (.valueError "not enough values to unpack")
  | .not body => do
      normalizeNotBody body
      .ok (!astGateOn || !(varsInNotBodies body.branches ∩ bound = ∅))

/-- How many terms satisfy a test, as a score. -/
def countTerms (p : Term → Bool) (terms : List Term) : Int := (terms.countP p : Nat)

/-- Is the term a variable, and is it bound? -/
def isBoundVar (bound : Scope) : Term → Bool
  | .var x => x ∈ bound
  | .const _ | .agg .. => false

def isUnboundVar (bound : Scope) : Term → Bool
  | .var x => !(x ∈ bound)
  | .const _ | .agg .. => false

/-- `int(flag)`. -/
def flag (b : Bool) : Int := if b then 1 else 0

/-- `pred_id.endswith(":exists")`. -/
def isExistsPred (predId : String) : Bool := ":exists".toList.isSuffixOf predId.toList

/-- `_atom_eval_score`, a tuple that compares lexicographically. The values of an `in` count as
a known side. -/
def atomEvalScore (bound : Scope) : Atom → Except Err (List Int)
  | .pred predId terms =>
      .ok [50, countTerms (termKnownForPlan bound) terms, countTerms (isBoundVar bound) terms,
        -countTerms (isUnboundVar bound) terms, if isExistsPred predId then -1 else 0]
  | .cmp .eq lhs rhs =>
      let lhsKnown := termKnownForPlan bound lhs
      let rhsKnown := termKnownForPlan bound rhs
      .ok [40, flag (isUnboundVar bound lhs && rhsKnown) + flag (isUnboundVar bound rhs && lhsKnown),
        flag lhsKnown + flag rhsKnown, 0, 0]
  | .builtin _ args =>
      .ok [30, flag ((args.take 1).any (isUnboundVar bound)),
        countTerms (termKnownForPlan bound) (args.drop 1), 0, 0]
  | .inn x _ => .ok [20, flag (x ∈ bound) + 1, 0, 0, 0]
  | .cmp _ lhs rhs =>
      .ok [20, flag (termKnownForPlan bound lhs) + flag (termKnownForPlan bound rhs), 0, 0, 0]
  | .not body => do
      normalizeNotBody body
      .ok [10, ((varsInNotBodies body.branches ∩ bound).card : Nat), 0, 0, 0]
  | .ruleref .. => .ok [0, 0, 0, 0, 0]

/-! ## The plan -/

/-- `_is_system_identity_var`. -/
def isSystemIdentityVar : Term → Bool
  | .var x => "$__identity_".toList.isPrefixOf x.toList
  | .const _ | .agg .. => false

/-- `_body_has_system_identity_signal`. -/
def bodyHasSystemIdentitySignal (body : List Atom) : Bool :=
  body.any fun
    | .pred _ terms => terms.any isSystemIdentityVar
    | .cmp .. | .inn .. | .builtin .. | .not _ | .ruleref .. => false

variable {α : Type}

/-- `selected_score is None or score > selected_score`. -/
def beatsSelected (selected : Option (Nat × List Int)) (score : List Int) : Bool :=
  match selected with
  | none => true
  | some (_, selectedScore) => selectedScore < score

/-- The loop of `_plan_body_atoms` that looks for the next atom: the position and score of the
best ready one so far, from position `idx` on. -/
def selectAtom (astGateOn : Bool) (key : α → Atom) (bound : Scope) :
    Nat → Option (Nat × List Int) → List α → Except Err (Option (Nat × List Int))
  | _, best, [] => .ok best
  | idx, best, a :: rest => do
      let ready ← atomReadyForEval astGateOn bound (key a)
      if ready then
        let score ← atomEvalScore bound (key a)
        selectAtom astGateOn key bound (idx + 1)
          (if beatsSelected best score then some (idx, score) else best) rest
      else selectAtom astGateOn key bound (idx + 1) best rest

/-- The `while remaining` loop; the first argument is the number of atoms that remain. -/
def planRemaining (astGateOn : Bool) (key : α → Atom) :
    Nat → Scope → List α → Except Err (List α)
  | 0, _, _ => .ok []
  | n + 1, bound, remaining => do
      let selected ← selectAtom astGateOn key bound 0 none remaining
      let idx := (selected.map Prod.fst).getD 0
      match remaining[idx]? with
      | none => .ok []
      | some a =>
          let rest ← planRemaining astGateOn key n (updateBoundVarsForPlan bound (key a))
            (remaining.eraseIdx idx)
          .ok (a :: rest)

/-- `_plan_body_atoms`. -/
def planBodyAtoms (astGateOn : Bool) (key : α → Atom) (bound : Scope) (body : List α) :
    Except Err (List α) :=
  if body.length ≤ 1 || !bodyHasSystemIdentitySignal (body.map key) then .ok body
  else planRemaining astGateOn key body.length bound body

/-! ## What a plan is

Planning commutes with a map that leaves the keys alone, and one step of it takes one atom out:
a ready one, or the first when none is ready. -/

section

variable {β : Type} {astGateOn : Bool} {key : β → Atom} {bound : Scope}

theorem selectAtom_map (f : α → β) (idx : Nat) (best : Option (Nat × List Int)) (l : List α) :
    selectAtom astGateOn key bound idx best (l.map f) =
      selectAtom astGateOn (key ∘ f) bound idx best l := by
  induction l generalizing idx best with
  | nil => rfl
  | cons a l ih => simp only [List.map_cons, selectAtom, ih, Function.comp_apply]

theorem planRemaining_map (f : α → β) (n : Nat) (bound : Scope) (l : List α) :
    planRemaining astGateOn key n bound (l.map f) =
      (planRemaining astGateOn (key ∘ f) n bound l).map (List.map f) := by
  induction n generalizing bound l with
  | zero => rfl
  | succ n ih =>
    simp only [planRemaining, selectAtom_map, List.getElem?_map]
    cases selectAtom astGateOn (key ∘ f) bound 0 none l with
    | error e => rfl
    | ok selected =>
      simp only [Check.ok_bind]
      cases l[(selected.map Prod.fst).getD 0]? with
      | none => rfl
      | some a =>
        simp only [Option.map_some, List.eraseIdx_map, ih, Function.comp_apply]
        cases planRemaining astGateOn (key ∘ f) n (updateBoundVarsForPlan bound (key (f a)))
          (l.eraseIdx ((selected.map Prod.fst).getD 0)) <;> rfl

/-- A plan of items is the plan of their keys. -/
theorem planBodyAtoms_map (f : α → β) (l : List α) :
    planBodyAtoms astGateOn key bound (l.map f) =
      (planBodyAtoms astGateOn (key ∘ f) bound l).map (List.map f) := by
  simp only [planBodyAtoms, List.length_map, List.map_map, planRemaining_map]
  split <;> rfl

/-- `a`, at position `i`, is what one step of the plan may take, readiness being decided for
every atom: a ready atom that no ready atom beats, or the first when none is ready. -/
def Chosen (astGateOn : Bool) (key : β → Atom) (bound : Scope) (l : List β) (i : Nat) (a : β) :
    Prop :=
  (∀ b ∈ l, ∃ ready, atomReadyForEval astGateOn bound (key b) = .ok ready) ∧
  ((∃ s, atomReadyForEval astGateOn bound (key a) = .ok true ∧
    atomEvalScore bound (key a) = .ok s ∧
    ∀ b ∈ l, atomReadyForEval astGateOn bound (key b) = .ok true →
      ∃ s', atomEvalScore bound (key b) = .ok s' ∧ ¬ s < s') ∨
  (i = 0 ∧ ∀ b ∈ l, atomReadyForEval astGateOn bound (key b) = .ok false))

theorem beatsSelected_some {i : Nat} {s s' : List Int} :
    beatsSelected (some (i, s)) s' = true ↔ s < s' := decide_eq_true_iff

theorem selectAtom_spec {idx : Nat} {best sel : Option (Nat × List Int)} {l : List β}
    (h : selectAtom astGateOn key bound idx best l = .ok sel) :
    (∀ i s, sel = some (i, s) → best = some (i, s) ∨
      ∃ j a, l[j]? = some a ∧ i = idx + j ∧ atomReadyForEval astGateOn bound (key a) = .ok true ∧
        atomEvalScore bound (key a) = .ok s) ∧
    (sel = none → best = none ∧
      ∀ a ∈ l, atomReadyForEval astGateOn bound (key a) = .ok false) := by
  induction l generalizing idx best with
  | nil =>
    simp only [selectAtom, Except.ok.injEq] at h
    subst h
    exact ⟨fun i s hs => Or.inl hs, fun hs => ⟨hs, by simp⟩⟩
  | cons a l ih =>
    simp only [selectAtom, Check.bind_ok_iff] at h
    obtain ⟨ready, hready, h⟩ := h
    have later : ∀ {i : Nat} {P : β → Prop}, (∃ j b, l[j]? = some b ∧ i = idx + 1 + j ∧ P b) →
        ∃ j b, (a :: l)[j]? = some b ∧ i = idx + j ∧ P b := by
      rintro i P ⟨j, b, hb, rfl, hP⟩
      exact ⟨j + 1, b, by simpa using hb, by omega, hP⟩
    cases ready with
    | false =>
      obtain ⟨hsome, hnone⟩ := ih h
      refine ⟨fun i s hs => (hsome i s hs).imp_right later, fun hs => ⟨(hnone hs).1, ?_⟩⟩
      exact List.forall_mem_cons.mpr ⟨hready, (hnone hs).2⟩
    | true =>
      simp only [if_true, Check.bind_ok_iff] at h
      obtain ⟨score, hscore, h⟩ := h
      obtain ⟨hsome, hnone⟩ := ih h
      cases hbeats : beatsSelected best score with
      | true =>
        rw [hbeats] at hsome hnone
        refine ⟨fun i s hs => Or.inr ?_, fun hs => absurd (hnone hs).1 (by simp)⟩
        rcases hsome i s hs with hbest | hj
        · rw [if_pos rfl, Option.some.injEq, Prod.mk.injEq] at hbest
          obtain ⟨rfl, rfl⟩ := hbest
          exact ⟨0, a, rfl, rfl, hready, hscore⟩
        · exact later hj
      | false =>
        rw [hbeats] at hsome hnone
        refine ⟨fun i s hs => (hsome i s hs).imp_right later, fun hs => ?_⟩
        -- a ready atom that beats nothing leaves the best one before it
        have hbest : best = none := (hnone hs).1
        simp [hbest, beatsSelected] at hbeats

theorem selectAtom_ready {idx : Nat} {best sel : Option (Nat × List Int)} {l : List β}
    (h : selectAtom astGateOn key bound idx best l = .ok sel) :
    ∀ a ∈ l, ∃ ready, atomReadyForEval astGateOn bound (key a) = .ok ready := by
  induction l generalizing idx best with
  | nil => simp
  | cons a l ih =>
    simp only [selectAtom, Check.bind_ok_iff] at h
    obtain ⟨ready, hready, h⟩ := h
    refine List.forall_mem_cons.mpr ⟨⟨ready, hready⟩, ?_⟩
    cases ready with
    | false => exact ih h
    | true =>
      simp only [if_true, Check.bind_ok_iff] at h
      obtain ⟨_, -, h⟩ := h
      exact ih h

/-- Nothing ready beats what is selected. -/
theorem selectAtom_max {idx : Nat} {best : Option (Nat × List Int)} {i : Nat} {s : List Int}
    {l : List β} (h : selectAtom astGateOn key bound idx best l = .ok (some (i, s))) :
    (∀ p, best = some p → ¬ s < p.2) ∧
    ∀ a ∈ l, atomReadyForEval astGateOn bound (key a) = .ok true →
      ∃ s', atomEvalScore bound (key a) = .ok s' ∧ ¬ s < s' := by
  induction l generalizing idx best with
  | nil =>
    simp only [selectAtom, Except.ok.injEq] at h
    subst h
    simp
  | cons a l ih =>
    simp only [selectAtom, Check.bind_ok_iff] at h
    obtain ⟨ready, hready, h⟩ := h
    rw [List.forall_mem_cons]
    cases ready with
    | false =>
      obtain ⟨hbest, hall⟩ := ih h
      exact ⟨hbest, by simp [hready], hall⟩
    | true =>
      simp only [if_true, Check.bind_ok_iff] at h
      obtain ⟨score, hscore, h⟩ := h
      obtain ⟨hbest, hall⟩ := ih h
      cases hbeats : beatsSelected best score with
      | true =>
        rw [hbeats] at hbest
        have hs : ¬ s < score := hbest (idx, score) rfl
        refine ⟨?_, fun _ => ⟨score, hscore, hs⟩, hall⟩
        rintro ⟨j, s'⟩ rfl hlt
        exact hs (hlt.trans (beatsSelected_some.mp hbeats))
      | false =>
        rw [hbeats] at hbest
        refine ⟨hbest, fun _ => ⟨score, hscore, fun hlt => ?_⟩, hall⟩
        cases best with
        | none => simp [beatsSelected] at hbeats
        | some p =>
          have hp : ¬ p.2 < score := fun h => by
            rw [beatsSelected_some.mpr h] at hbeats
            cases hbeats
          exact hbest p rfl (hlt.trans_le (not_lt.mp hp))

/-- One step of the plan. -/
theorem planRemaining_succ {n : Nat} {l planned : List β} (hl : l ≠ [])
    (h : planRemaining astGateOn key (n + 1) bound l = .ok planned) :
    ∃ i a rest, l[i]? = some a ∧ planned = a :: rest ∧
      planRemaining astGateOn key n (updateBoundVarsForPlan bound (key a)) (l.eraseIdx i) =
        .ok rest ∧ Chosen astGateOn key bound l i a := by
  simp only [planRemaining, Check.bind_ok_iff] at h
  obtain ⟨selected, hsel, h⟩ := h
  obtain ⟨hsome, hnone⟩ := selectAtom_spec hsel
  have hchosen : ∃ a, l[(selected.map Prod.fst).getD 0]? = some a ∧
      Chosen astGateOn key bound l ((selected.map Prod.fst).getD 0) a := by
    cases selected with
    | none =>
      obtain ⟨a, l', rfl⟩ := List.exists_cons_of_ne_nil hl
      exact ⟨a, rfl, selectAtom_ready hsel, Or.inr ⟨rfl, (hnone rfl).2⟩⟩
    | some p =>
      obtain hbest | ⟨j, a, hj, hi, hready, hscore⟩ := hsome p.1 p.2 rfl
      · simp at hbest
      · exact ⟨a, by simpa [hi] using hj, selectAtom_ready hsel,
          Or.inl ⟨p.2, hready, hscore, (selectAtom_max hsel).2⟩⟩
  obtain ⟨a, ha, hchosen⟩ := hchosen
  rw [ha] at h
  simp only [Check.bind_ok_iff, Except.ok.injEq] at h
  obtain ⟨rest, hrest, rfl⟩ := h
  exact ⟨_, a, rest, ha, rfl, hrest, hchosen⟩

theorem planRemaining_perm {n : Nat} {l planned : List β} (hn : l.length = n)
    (h : planRemaining astGateOn key n bound l = .ok planned) : planned.Perm l := by
  induction n generalizing bound l planned with
  | zero =>
    simp only [planRemaining, Except.ok.injEq] at h
    rw [← h, List.length_eq_zero_iff.mp hn]
  | succ n ih =>
    have hl : l ≠ [] := by rintro rfl; simp at hn
    obtain ⟨i, a, rest, ha, rfl, hrest, -⟩ := planRemaining_succ hl h
    obtain ⟨hi, rfl⟩ := List.getElem?_eq_some_iff.mp ha
    have hlen : (l.eraseIdx i).length = n := by rw [List.length_eraseIdx_of_lt hi, hn]; rfl
    exact ((ih hlen hrest).cons _).trans (List.getElem_cons_eraseIdx_perm hi)

/-- A plan is a permutation of the body. -/
theorem planBodyAtoms_perm {l planned : List β}
    (h : planBodyAtoms astGateOn key bound l = .ok planned) : planned.Perm l := by
  rw [planBodyAtoms] at h
  split at h
  · rw [Except.ok.injEq] at h
    rw [h]
  · exact planRemaining_perm rfl h

end

end FactGraph.Rules
