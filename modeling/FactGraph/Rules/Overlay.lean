import FactGraph.Rules.Eval

/-!
# Overlays of a clause

The overlay parameters of `evaluate_where` (`core/rules/where_eval.py`): literals of the clause are
replaced, conditions are added to its branches, and conditions are disabled, in this order, on the
bodies the clause normalizes to. Everything is addressed by the index of a branch and the index of a
condition in it.

The three parameters are sets; each is carried as the list of its elements in the order in which it
is iterated. `repr` is taken as a function on conditions.
-/

namespace FactGraph.Rules

open Check

/-! ## Parameters -/

/-- The paths `_is_literal_path` accepts. -/
inductive LiteralPath where
  | predTerm (index : Nat)
  | lhs
  | rhs
  | inValue (index : Nat)
  | constOperand
  deriving DecidableEq, Repr

structure WhereLiteralReplacement where
  caseIndex : Nat
  conditionIndex : Nat
  literalPath : LiteralPath
  oldLiteral : Value
  newLiteral : Value
  deriving DecidableEq

/-- `(case_index, condition_index, literal_path)`. -/
def WhereLiteralReplacement.target (r : WhereLiteralReplacement) : Nat × Nat × LiteralPath :=
  (r.caseIndex, r.conditionIndex, r.literalPath)

structure WhereAddedCondition where
  caseIndex : Nat
  atom : Atom

/-- The overlay parameters of `evaluate_where`. -/
structure Overlay where
  disabledLocators : List (Nat × Nat) := []
  literalReplacements : List WhereLiteralReplacement := []
  addedConditions : List WhereAddedCondition := []

/-! ## Literal replacements -/

/-- `_validate_literal_replacements`, on entries of the right type. -/
def validateLiteralReplacement (r : WhereLiteralReplacement) : Except Err Unit := do
  require r.oldLiteral.isLiteral
    (.whereValidation "literal replacement old_literal must be literal")
  require r.newLiteral.isLiteral
    (.whereValidation "literal replacement new_literal must be literal")

/-- `_replace_literal_leaf`. -/
def replaceLiteralLeaf (r : WhereLiteralReplacement) (value : Value) : Except Err Value := do
  require value.isLiteral (.whereValidation "literal replacement target leaf must be literal")
  require (value.eqv r.oldLiteral)
    (.whereValidation "literal replacement old_literal does not match target")
  require r.newLiteral.isLiteral
    (.whereValidation "literal replacement new_literal must be literal")
  .ok r.newLiteral

/-- `_replace_literal_leaf` on a term: a variable and an aggregate are no literals. -/
def replaceLiteralTerm (r : WhereLiteralReplacement) : Term → Except Err Term
  | .const value => (replaceLiteralLeaf r value).map .const
  | .var _ | .agg .. =>
      .error (.whereValidation "literal replacement target leaf must be literal")

/-- `next_terms[index] = …`, where `index` was checked against the length. -/
def replaceAt {α : Type} (f : α → Except Err α) (index : Nat) (outOfRange : Err) (xs : List α) :
    Except Err (List α) :=
  match xs[index]? with
  | none => .error outOfRange
  | some x => (f x).map fun y => xs.set index y

/-- `_apply_literal_replacement_to_atom`. -/
def applyLiteralReplacementToAtom (atom : Atom) (r : WhereLiteralReplacement) : Except Err Atom :=
  let incompatible :=
    Err.whereValidation "literal replacement path incompatible with atom kind"
  match r.literalPath with
  | .predTerm index =>
      match atom with
      | .pred predId terms => (replaceAt (replaceLiteralTerm r) index
          (.whereValidation "literal replacement term index out of range") terms).map
            (Atom.pred predId)
      | _ => .error incompatible
  | .lhs =>
      match atom with
      | .cmp op lhs rhs => (replaceLiteralTerm r lhs).map fun lhs => .cmp op lhs rhs
      | _ => .error incompatible
  | .rhs =>
      match atom with
      | .cmp op lhs rhs => (replaceLiteralTerm r rhs).map fun rhs => .cmp op lhs rhs
      | _ => .error incompatible
  | .inValue index =>
      match atom with
      | .inn x values => (replaceAt (replaceLiteralLeaf r) index
          (.whereValidation "literal replacement in value index out of range") values).map
            (Atom.inn x)
      | _ => .error incompatible
  | .constOperand =>
      match atom with
      | .builtin op args =>
          if op = .addc ∨ op = .mulc then
            -- a validated atom of either kind has three operands
            (replaceAt (replaceLiteralTerm r) 2 (.valueError "list index out of range") args).map
              (Atom.builtin op)
          else .error incompatible
      | _ => .error incompatible

/-- The loop of `_apply_literal_replacements` that fills `replacement_by_target`. -/
def checkTargets (bodies : List (List Atom)) :
    List (Nat × Nat × LiteralPath) → List WhereLiteralReplacement → Except Err Unit
  | _, [] => .ok ()
  | seen, r :: rest => do
      require (r.caseIndex < bodies.length)
        (.whereValidation "literal replacement case_index out of range")
      require (r.conditionIndex < (bodies.getD r.caseIndex []).length)
        (.whereValidation "literal replacement condition_index out of range")
      require (r.target ∉ seen) (.whereValidation "duplicate literal replacement target")
      checkTargets bodies (r.target :: seen) rest

/-- `_apply_literal_replacements`. -/
def applyLiteralReplacements (replacements : List WhereLiteralReplacement)
    (bodies : List (List Atom)) : Except Err (List (List Atom)) := do
  each validateLiteralReplacement replacements
  checkTargets bodies [] replacements
  mapOk (fun (body, caseIndex) =>
    mapOk (fun (atom, conditionIndex) =>
      (replacements.filter fun r =>
        r.caseIndex = caseIndex ∧ r.conditionIndex = conditionIndex).foldlM
          applyLiteralReplacementToAtom atom) body.zipIdx) bodies.zipIdx

/-! ## Added conditions -/

/-- `additions_by_branch`. -/
def additionsOf (added : List WhereAddedCondition) (caseIndex : Nat) : List Atom :=
  (added.filter fun c => c.caseIndex = caseIndex).map (·.atom)

/-- `sorted(…, key=repr)`. -/
def sortByRepr (repr : Atom → String) (atoms : List Atom) : List Atom :=
  atoms.insertionSort fun a b => repr a ≤ repr b

/-- `_apply_added_conditions`. -/
def applyAddedConditions (repr : Atom → String) (added : List WhereAddedCondition)
    (bodies : List (List Atom)) : Except Err (List (List Atom)) := do
  each (fun c => do
    require (c.caseIndex < bodies.length)
      (.whereValidation "added condition case_index out of range")
    validateAtom c.atom) added
  .ok (bodies.zipIdx.map fun (body, caseIndex) =>
    body ++ sortByRepr repr (additionsOf added caseIndex))

/-! ## Disabled locators -/

/-- The numbered conditions of a branch that are not disabled. -/
abbrev enabled (locators : List (Nat × Nat)) (caseIndex : Nat) (numbered : List (Atom × Nat)) :
    List (Atom × Nat) :=
  numbered.filter fun p => (caseIndex, p.2) ∉ locators

/-- `_apply_disabled_locators`. -/
def applyDisabledLocators (locators : List (Nat × Nat)) (bodies : List (List Atom)) :
    Except Err (List (List Atom)) := do
  each (fun (caseIndex, conditionIndex) => do
    require (caseIndex < bodies.length)
      (.whereValidation "disabled locator case_index out of range")
    require (conditionIndex < (bodies.getD caseIndex []).length)
      (.whereValidation "disabled locator condition_index out of range")) locators
  .ok (bodies.zipIdx.map fun (body, caseIndex) =>
    (enabled locators caseIndex body.zipIdx).map Prod.fst)

/-! ## Evaluation -/

/-- A rewrite of the bodies, made when its parameter is not empty. -/
def pass {α : Type} (parameter : List α)
    (apply : List α → List (List Atom) → Except Err (List (List Atom)))
    (bodies : List (List Atom)) : Except Err (List (List Atom)) :=
  if parameter.isEmpty then .ok bodies else apply parameter bodies

/-- The three rewrites of `evaluate_where`. -/
def applyOverlay (repr : Atom → String) (overlay : Overlay) (bodies : List (List Atom)) :
    Except Err (List (List Atom)) := do
  let bodies ← pass overlay.literalReplacements applyLiteralReplacements bodies
  let bodies ← pass overlay.addedConditions (applyAddedConditions repr) bodies
  pass overlay.disabledLocators applyDisabledLocators bodies

/-- `evaluate_where`. -/
def evaluateWhereOverlaid (ctx : EvalCtx) (repr : Atom → String) (overlay : Overlay)
    (w : WhereExpr) : Except Err (List Env) := do
  whereAstGate ctx.astGateOn w
  normalizeWhere w
  let bodies ← applyOverlay repr overlay w.branches
  let bindings ← collect (fun b => evalBody ctx b [[]]) bodies
  sortBindings (dedupBindings bindings)

end FactGraph.Rules
