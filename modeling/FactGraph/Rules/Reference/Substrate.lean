import FactGraph.Rules.Reference.Registry

/-!
# Rewriting references

Both evaluators of rule references replace a `ruleref` atom by a predicate atom over an internal
predicate, evaluate the referenced rule on the way, and lay its rows over the view under the
internal name. Their two `_rewrite_where_rule_refs` are the loops of this file at different
arguments: the error a check raises, a check on the terms that one of them makes first, and how
a referenced rule is evaluated.
-/

namespace FactGraph.Rules

open Check

/-- A reference of a clause: where it stands and the rule it names. -/
structure RuleRefSite where
  caseIndex : Nat
  conditionIndex : Nat
  spec : RuleSpec

/-- A reference, and what evaluating the rule gave. -/
structure RuleRefUse (V : Type) extends RuleRefSite where
  out : V

/-- `memo_outputs`, `memo_rows`. -/
abbrev RuleMemo (V : Type) := List (RuleKey × V)

/-- What the two `rewrite_atom` do differently. -/
structure RewriteStyle where
  errorFactory : String → Err
  checkTerms : List Term → Except Err Unit

section

variable {V : Type} (py : PyOps) (registry : RuleRegistry) (style : RewriteStyle)
  (evalRef : RuleSpec → RuleMemo V → Except Err (V × RuleMemo V))

/-! ## The loops -/

/-- `rewrite_atom`. -/
def rewriteAtom (caseIndex conditionIndex : Nat) :
    Atom → RuleMemo V → Except Err (Atom × List (RuleRefUse V) × RuleMemo V)
  | .ruleref ruleId version terms, memo => do
      style.checkTerms terms
      let refSpec ← resolveExposedRuleRef registry ruleId version terms.length style.errorFactory
      let (out, memo) ← evalRef refSpec memo
      .ok (.pred (internalRulePredId py refSpec.ruleId refSpec.version) terms,
        [⟨⟨caseIndex, conditionIndex, refSpec⟩, out⟩], memo)
  | atom, memo => .ok (atom, [], memo)

/-- The atoms of one branch, from position `conditionIndex` on. -/
def rewriteBranch (caseIndex : Nat) :
    Nat → List Atom → RuleMemo V → Except Err (List Atom × List (RuleRefUse V) × RuleMemo V)
  | _, [], memo => .ok ([], [], memo)
  | conditionIndex, atom :: rest, memo => do
      let (atom, uses, memo) ←
        rewriteAtom py registry style evalRef caseIndex conditionIndex atom memo
      let (rest, uses', memo) ← rewriteBranch caseIndex (conditionIndex + 1) rest memo
      .ok (atom :: rest, uses ++ uses', memo)

def rewriteBranches : Nat → List (List Atom) → RuleMemo V →
    Except Err (List (List Atom) × List (RuleRefUse V) × RuleMemo V)
  | _, [], memo => .ok ([], [], memo)
  | caseIndex, branch :: rest, memo => do
      let (branch, uses, memo) ← rewriteBranch py registry style evalRef caseIndex 0 branch memo
      let (rest, uses', memo) ← rewriteBranches (caseIndex + 1) rest memo
      .ok (branch :: rest, uses ++ uses', memo)

/-- `_rewrite_where_rule_refs`. -/
def rewriteWhereRuleRefs (clause : WhereExpr) (memo : RuleMemo V) :
    Except Err (WhereExpr × List (RuleRefUse V) × RuleMemo V) :=
  match clause with
  | .and atoms => do
      let (atoms, uses, memo) ← rewriteBranch py registry style evalRef 0 0 atoms memo
      .ok (.and atoms, uses, memo)
  | .or branches => do
      let (branches, uses, memo) ← rewriteBranches py registry style evalRef 0 branches memo
      .ok (.or branches, uses, memo)

end

/-! ## Overlays -/

/-- `dict(view_facts)` updated with rows under internal names. -/
def overlaid (viewFacts : ViewFacts) (overlay : List (String × List Fact)) : ViewFacts :=
  fun p => match Dict.get? overlay p with
    | some rows => some rows
    | none => viewFacts p

/-- `overlay[pred_id] = rows`, reference by reference: the last one under a name stays. -/
def refOverlay (py : PyOps) {V : Type} (rows : V → List Fact) (uses : List (RuleRefUse V)) :
    List (String × List Fact) :=
  uses.foldl (fun overlay use =>
    Dict.set overlay (internalRulePredId py use.spec.ruleId use.spec.version) (rows use.out)) []

/-!
## `ruleref_substrate.py`

`evaluate_native_where`: check the clause as it stands, replace its references, evaluate what it has
become. A referenced rule is evaluated the same way, once, and its answers are projected onto its
selected variables.

The calls modelled are those without witness facts: then a row of a referenced rule has no receipt,
and `_build_rule_row_support` returns one fixed reason.
-/

/-! ## Sorting by a key -/

/-- `sorted`, by a comparison that may raise. Keys that are pairwise different cannot be sorted
without comparing a pair whose order nothing else decides, so it raises exactly when some pair is
unordered. -/
def sortBy {α : Type} (lt? : α → α → Option Bool) (l : List α) : Except Err (List α) :=
  if l.all fun a => l.all fun b => (lt? a b).isSome then
    .ok (l.insertionSort fun a b => lt? b a ≠ some true)
  else .error (.typeError "'<' not supported between instances")

/-- What insertion leaves side by side is in order, when one of any two may come first. -/
theorem isChain_orderedInsert {α : Type} {r : α → α → Prop} [DecidableRel r]
    (htotal : ∀ a b, r a b ∨ r b a) (a : α) {l : List α} (h : l.IsChain r) :
    (l.orderedInsert r a).IsChain r := by
  induction l with
  | nil => exact .singleton a
  | cons b l ih =>
    rw [List.orderedInsert_cons]
    split
    · next hab => exact .cons_cons hab h
    · next hab =>
      have hba : r b a := (htotal a b).resolve_left hab
      cases l with
      | nil => exact .cons_cons hba (.singleton a)
      | cons c l =>
        rw [List.isChain_cons_cons] at h
        have hrest := ih h.2
        rw [List.orderedInsert_cons] at hrest ⊢
        split
        · next hac =>
          rw [if_pos hac] at hrest
          exact .cons_cons hba hrest
        · next hac =>
          rw [if_neg hac] at hrest
          exact .cons_cons h.1 hrest

theorem isChain_insertionSort {α : Type} {r : α → α → Prop} [DecidableRel r]
    (htotal : ∀ a b, r a b ∨ r b a) (l : List α) : (l.insertionSort r).IsChain r := by
  induction l with
  | nil => exact .nil
  | cons a l ih => exact isChain_orderedInsert htotal a ih

/-! ## Rows and their supports -/

/-- `<` on tuples of cells. -/
def rowLt? : Fact → Fact → Option Bool
  | [], [] => some false
  | [], _ :: _ => some true
  | _ :: _, [] => some false
  | v :: vs, w :: ws => if v.eqv w then rowLt? vs ws else v.lt? w

structure NativeRuleRefRowSupport where
  rowTerms : Fact
  childSupportDigest : Option String
  unresolvedReason : Option String

/-- `_row_support_sort_key(a) < _row_support_sort_key(b)`. -/
def rowSupportLt? (a b : NativeRuleRefRowSupport) : Option Bool :=
  if a.rowTerms.map Value.canon = b.rowTerms.map Value.canon then
    some (decide ([a.childSupportDigest.getD "", a.unresolvedReason.getD ""] <
      [b.childSupportDigest.getD "", b.unresolvedReason.getD ""]))
  else rowLt? a.rowTerms b.rowTerms

/-- The same comparison on `(row_terms, child_support_digest or "")`. -/
def resolutionLt? (a b : NativeRuleRefRowSupport) : Option Bool :=
  if a.rowTerms.map Value.canon = b.rowTerms.map Value.canon then
    some (decide (a.childSupportDigest.getD "" < b.childSupportDigest.getD ""))
  else rowLt? a.rowTerms b.rowTerms

/-- `row_supports == sorted(row_supports)`: none is followed by a smaller one. -/
def SupportsSorted (supports : List NativeRuleRefRowSupport) : Prop :=
  supports.IsChain fun a b => resolutionLt? b a ≠ some true

/-- `_RegisteredRuleEvaluation`. -/
structure RegisteredRuleEvaluation where
  rows : List Fact
  rowSupports : List NativeRuleRefRowSupport
  sorted : SupportsSorted rowSupports

/-- The check of `__post_init__` is the last field. -/
structure NativeRuleRefResolution where
  conditionKey : String
  ruleRefId : String
  ruleRefVersion : String
  rowSupports : List NativeRuleRefRowSupport
  sorted : SupportsSorted rowSupports

structure NativeWhereEvaluation where
  bindings : List Env
  ruleRefs : List String
  ruleRefResolutions : List NativeRuleRefResolution

/-- `_build_rule_row_support`. -/
def buildRuleRowSupport (rowTerms : Fact) : NativeRuleRefRowSupport :=
  ⟨rowTerms, none, some "child_support_unavailable"⟩

/-- `tuple(binding[var] for var in select_vars)`. -/
def rowTerms (missing : String → Err) (binding : Env) : List String → Except Err Fact
  | [] => .ok []
  | x :: xs => do
      match Dict.get? binding x with
      | none => .error (missing x)
      | some v =>
          let rest ← rowTerms missing binding xs
          .ok (v :: rest)

/-- `row_supports_by_terms[row_terms]` set to the smaller of two supports. -/
def addSupport (supports : List (Fact × NativeRuleRefRowSupport)) (row : Fact) :
    List (Fact × NativeRuleRefRowSupport) :=
  let support := buildRuleRowSupport row
  match supports with
  | [] => [(row, support)]
  | (other, existing) :: rest =>
      if other.map Value.canon = row.map Value.canon then
        (other, if rowSupportLt? support existing = some true then support else existing) :: rest
      else (other, existing) :: addSupport rest row

/-- `tuple(str(cell) for cell in row)`, a key that compares lexicographically. -/
def rowText (py : PyOps) (row : Fact) : List String := row.map py.text

/-- `sorted(rows, key=lambda row: tuple(str(cell) for cell in row))`. -/
def sortRows (py : PyOps) (rows : List Fact) : List Fact :=
  rows.insertionSort fun r s => rowText py r ≤ rowText py s

theorem Value.lt?_asymm (v w : Value) : v.lt? w ≠ some true ∨ w.lt? v ≠ some true := by
  by_cases h : v.lt? w = some true
  · refine Or.inr fun h' => ?_
    simp only [Value.lt?] at h h'
    cases hv : v.number? with
    | some a =>
      cases hw : w.number? with
      | some b =>
        simp only [hv, hw, Option.some.injEq, decide_eq_true_eq] at h h'
        exact lt_asymm h h'
      | none => simp [hv, hw] at h
    | none =>
      cases hw : w.number? with
      | some b => simp [hv, hw] at h
      | none =>
        simp only [hv, hw] at h h'
        cases v <;> cases w <;>
          simp only [Option.some.injEq, decide_eq_true_eq, reduceCtorEq] at h h'
        · exact lt_asymm h h'
        · exact List.lt_asymm h h'
  · exact Or.inl h

theorem rowLt?_asymm (r s : Fact) : rowLt? r s ≠ some true ∨ rowLt? s r ≠ some true := by
  induction r generalizing s with
  | nil => cases s <;> simp [rowLt?]
  | cons v vs ih =>
    cases s with
    | nil => simp [rowLt?]
    | cons w ws =>
      simp only [rowLt?, Value.eqv_comm w v]
      cases v.eqv w with
      | true => simpa using ih ws
      | false => simpa using Value.lt?_asymm v w

theorem rowSupportLt?_asymm (a b : NativeRuleRefRowSupport) :
    rowSupportLt? a b ≠ some true ∨ rowSupportLt? b a ≠ some true := by
  by_cases h : a.rowTerms.map Value.canon = b.rowTerms.map Value.canon
  · simp only [rowSupportLt?, if_pos h, if_pos h.symm, ne_eq, Option.some.injEq,
      decide_eq_true_eq]
    exact not_and_or.mp fun hlt => lt_asymm hlt.1 hlt.2
  · simp only [rowSupportLt?, if_neg h, if_neg (Ne.symm h)]
    exact rowLt?_asymm _ _

theorem rowSupportLt?_of_resolution {a b : NativeRuleRefRowSupport}
    (h : resolutionLt? a b = some true) : rowSupportLt? a b = some true := by
  by_cases heq : a.rowTerms.map Value.canon = b.rowTerms.map Value.canon
  · simp only [resolutionLt?, rowSupportLt?, if_pos heq, Option.some.injEq,
      decide_eq_true_eq] at h ⊢
    exact List.cons_lt_cons_iff.mpr (Or.inl h)
  · simpa only [resolutionLt?, rowSupportLt?, if_neg heq] using h

/-- What `sorted` returns is in the order the resolution asks for. -/
theorem supportsSorted_of_sortBy {l supports : List NativeRuleRefRowSupport}
    (h : sortBy rowSupportLt? l = .ok supports) : SupportsSorted supports := by
  rw [sortBy] at h
  split at h
  · rw [Except.ok.injEq] at h
    subst h
    refine (isChain_insertionSort (fun a b => ?_) l).imp fun a b hab hlt => ?_
    · exact rowSupportLt?_asymm b a
    · exact hab (rowSupportLt?_of_resolution hlt)
  · cases h

/-- The rows of `_evaluate_registered_rule_output` with their supports, from the bindings. -/
def rowSupportsByTerms (selectVars : List String) :
    List Env → List (Fact × NativeRuleRefRowSupport) →
      Except Err (List (Fact × NativeRuleRefRowSupport))
  | [], supports => .ok supports
  | binding :: rest, supports => do
      let row ← rowTerms .keyError binding selectVars
      rowSupportsByTerms selectVars rest (addSupport supports row)

/-- `_RegisteredRuleEvaluation(rows=sorted(...), row_supports=sorted(...))`. -/
def registeredRuleEvaluation (py : PyOps) (selectVars : List String) (bindings : List Env) :
    Except Err RegisteredRuleEvaluation := do
  let supports ← rowSupportsByTerms selectVars bindings []
  match h : sortBy rowSupportLt? (supports.map Prod.snd) with
  | .error e => .error e
  | .ok sorted =>
      .ok ⟨sortRows py (supports.map Prod.fst), sorted, supportsSorted_of_sortBy h⟩

/-! ## Evaluation -/

/-- The adapted error of `_validate_where_for_ruleref`. -/
def validateWhereForRuleref (clause : WhereExpr) : Except Err Unit :=
  adaptWhereAstError (validateWhereAst {} clause)

/-- `_rewrite_where_rule_refs` raises `WhereValidationError`. -/
def substrateStyle : RewriteStyle where
  errorFactory := .whereValidation
  checkTerms _ := .ok ()

/-- `f"c{case_index}.c{condition_index}:ruleref"`. -/
def RuleRefSite.conditionKey (site : RuleRefSite) : String :=
  s!"c{site.caseIndex}.c{site.conditionIndex}:ruleref"

def RuleRefUse.resolution (use : RuleRefUse RegisteredRuleEvaluation) :
    NativeRuleRefResolution where
  conditionKey := use.conditionKey
  ruleRefId := use.spec.ruleId
  ruleRefVersion := use.spec.version
  rowSupports := use.out.rowSupports
  sorted := use.out.sorted

def sortResolutions (resolutions : List NativeRuleRefResolution) : List NativeRuleRefResolution :=
  resolutions.insertionSort fun a b => a.conditionKey ≤ b.conditionKey

/-- A clause ready to be evaluated: its view, what it has become, and its resolutions. -/
structure PreparedWhere where
  ctx : EvalCtx
  clause : WhereExpr
  resolutions : List NativeRuleRefResolution

/-- The part of `_evaluate_native_where_internal` before the evaluation. -/
def prepareNativeWhere (py : PyOps) (ctx : EvalCtx) (registry : Option RuleRegistry)
    (evalRef : RuleSpec → RuleMemo RegisteredRuleEvaluation →
      Except Err (RegisteredRuleEvaluation × RuleMemo RegisteredRuleEvaluation))
    (clause : WhereExpr) (memo : RuleMemo RegisteredRuleEvaluation) :
    Except Err (PreparedWhere × RuleMemo RegisteredRuleEvaluation) :=
  match registry with
  | none =>
      if containsRulerefWhere clause then
        .error (.whereValidation "RuleRef execution requires explicit RuleRegistry")
      else .ok (⟨ctx, clause, []⟩, memo)
  | some registry =>
      if containsRulerefWhere clause then do
        validateWhereForRuleref clause
        let (rewritten, uses, memo) ←
          rewriteWhereRuleRefs py registry substrateStyle evalRef clause memo
        let overlay := refOverlay py RegisteredRuleEvaluation.rows uses
        .ok (⟨{ ctx with viewFacts := overlaid ctx.viewFacts overlay }, rewritten,
          sortResolutions (uses.map RuleRefUse.resolution)⟩, memo)
      else .ok (⟨ctx, clause, []⟩, memo)

/-- `tuple(sorted({row.rule_ref_id for row in resolutions}))`. -/
def ruleRefIds (resolutions : List NativeRuleRefResolution) : List String :=
  sortScope (resolutions.map NativeRuleRefResolution.ruleRefId).toFinset

/-- `_evaluate_native_where_internal`. -/
def evaluateNativeWhereInternal (py : PyOps) (ctx : EvalCtx) (registry : Option RuleRegistry)
    (evalRef : RuleSpec → RuleMemo RegisteredRuleEvaluation →
      Except Err (RegisteredRuleEvaluation × RuleMemo RegisteredRuleEvaluation))
    (clause : WhereExpr) (memo : RuleMemo RegisteredRuleEvaluation) :
    Except Err (NativeWhereEvaluation × RuleMemo RegisteredRuleEvaluation) := do
  let (prepared, memo) ← prepareNativeWhere py ctx registry evalRef clause memo
  let bindings ← evaluateWhere prepared.ctx prepared.clause
  .ok (⟨bindings, ruleRefIds prepared.resolutions, prepared.resolutions⟩, memo)

/-- `_evaluate_registered_rule_output`; the number bounds the depth of the recursion. -/
def evaluateRegisteredRuleOutput (py : PyOps) (ctx : EvalCtx) (registry : RuleRegistry) :
    Nat → List RuleKey → RuleSpec → RuleMemo RegisteredRuleEvaluation →
      Except Err (RegisteredRuleEvaluation × RuleMemo RegisteredRuleEvaluation)
  | 0, _, _, _ => .error (.recursionError "maximum recursion depth exceeded")
  | depth + 1, stack, spec, memo =>
      match Dict.get? memo spec.key with
      | some output => .ok (output, memo)
      | none =>
          if spec.key ∈ stack then
            .error (.whereValidation s!"RuleRef cycle detected at {spec.ruleId}@{spec.version}")
          else do
            let (evaluation, memo) ← evaluateNativeWhereInternal py ctx (some registry)
              (evaluateRegisteredRuleOutput py ctx registry depth (spec.key :: stack))
              spec.clause memo
            let output ← registeredRuleEvaluation py spec.selectVars evaluation.bindings
            .ok (output, Dict.set memo spec.key output)

/-- How a reference of the clause itself is evaluated: a depth that no chain of different rules
uses up. -/
def evaluateReferenced (py : PyOps) (ctx : EvalCtx) :
    Option RuleRegistry → RuleSpec → RuleMemo RegisteredRuleEvaluation →
      Except Err (RegisteredRuleEvaluation × RuleMemo RegisteredRuleEvaluation)
  | none => fun _ _ => .error (.whereValidation "RuleRef execution requires explicit RuleRegistry")
  | some registry => evaluateRegisteredRuleOutput py ctx registry (registry.keys.card + 1) []

/-- `evaluate_native_where`. -/
def evaluateNativeWhere (py : PyOps) (ctx : EvalCtx) (registry : Option RuleRegistry)
    (clause : WhereExpr) : Except Err NativeWhereEvaluation := do
  let (evaluation, _) ← evaluateNativeWhereInternal py ctx registry
    (evaluateReferenced py ctx registry) clause []
  .ok evaluation

end FactGraph.Rules
