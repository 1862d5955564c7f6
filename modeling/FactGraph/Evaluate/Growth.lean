import FactGraph.Evaluate.Bytes
import FactGraph.Lib.Saturating
import FactGraph.Rules.Eval

/-!
# The work of a verification

`_estimate_verification_work` of `application/evaluation_run_verification_runtime.py`. Before a captured
run is executed again, its clause is priced: an atom by the number of environments it can make of one,
a branch by the product of its atoms, a clause by the sum of its branches, all saturating. A run whose
price is beyond the limit is not executed.

An estimate is a saturating product or sum of factors that are at least one, and so it is cut off once
(`estimateAtoms_ok_iff`, `estimateExpression_ok_iff`).
-/

namespace FactGraph.Evaluate

open Rules Check

/-! ## Captured relations -/

/-- `EvaluationRunRelationV0`, as far as it is evaluated. -/
structure CapturedRelation where
  predicateId : String
  facts : List (String × Fact)

/-- The relations of a bundle: `EvaluationRunBundleV0.__post_init__` has each predicate once. -/
structure Relations where
  items : List CapturedRelation
  unique : (items.map CapturedRelation.predicateId).Nodup

/-- `relation_counts`. -/
def Relations.counts (relations : Relations) : List (String × Nat) :=
  relations.items.map fun item => (item.predicateId, item.facts.length)

/-- `view`, of `_materialize_evaluation_run_bundle_input`. -/
def Relations.view (relations : Relations) : ViewFacts :=
  Dict.get? (relations.items.map fun item => (item.predicateId, item.facts.map Prod.snd))

/-! ## Arithmetic -/

/-- `MAX_EVALUATION_RUN_VERIFICATION_WORK`. -/
def maxWork : Nat := 100000

/-- `_saturating_add`. -/
def saturatingAdd (left right : Nat) : Nat := Saturating.add maxWork left right

/-- `_saturating_multiply`. -/
def saturatingMultiply (left right : Nat) : Nat := Saturating.mul maxWork left right

/-! ## Bindings -/

/-- The error of `_atom_factor` and `_condition_count_atom`. -/
def unsupportedAtom : ShapeError :=
  ⟨"verification work estimator encountered unsupported atom"⟩

mutual

/-- `_estimate_expression`. -/
def estimateExpression (counts : List (String × Nat)) : WhereExpr → Except ShapeError Nat
  | .and atoms => estimateAtoms counts 1 atoms
  | .or branches => estimateBranches counts 0 branches

/-- The loop of `_estimate_expression`, from a total. -/
def estimateBranches (counts : List (String × Nat)) (total : Nat) :
    List (List Atom) → Except ShapeError Nat
  | [] => .ok total
  | branch :: branches => do
      let work ← estimateAtoms counts 1 branch
      estimateBranches counts (saturatingAdd total work) branches

/-- The loop of `_estimate_atoms`, from some work. -/
def estimateAtoms (counts : List (String × Nat)) (work : Nat) : List Atom → Except ShapeError Nat
  | [] => .ok work
  | atom :: atoms => do
      let factor ← atomFactor counts atom
      estimateAtoms counts (saturatingMultiply work factor) atoms

/-- `_atom_factor`. -/
def atomFactor (counts : List (String × Nat)) : Atom → Except ShapeError Nat
  | .pred predId terms => do
      let factor ← termFactors counts 1 terms
      .ok (max 1 ((Dict.get? counts predId).getD 0) * factor)
  | .not body => do
      let estimate ← estimateExpression counts body
      .ok (max 1 estimate)
  | .inn _ values => .ok (max 1 values.length)
  | .cmp _ lhs rhs => do
      let factor ← termFactor counts 1 lhs
      termFactor counts factor rhs
  | .builtin _ args => termFactors counts 1 args
  | .ruleref .. => .error unsupportedAtom

/-- The loop of `_term_factors`, from a factor. -/
def termFactors (counts : List (String × Nat)) (factor : Nat) : List Term → Except ShapeError Nat
  | [] => .ok factor
  | term :: terms => do
      let factor ← termFactor counts factor term
      termFactors counts factor terms

/-- The body of that loop. -/
def termFactor (counts : List (String × Nat)) (factor : Nat) : Term → Except ShapeError Nat
  | .agg _ _ filter => do
      let estimate ← estimateAtoms counts 1 filter
      .ok (saturatingMultiply factor (max 1 estimate))
  | .var _ | .const _ => .ok factor

end

/-! ## Conditions -/

mutual

/-- `_condition_count`. -/
def conditionCount : WhereExpr → Except ShapeError Nat
  | .and atoms => conditionCountAtoms atoms
  | .or branches => conditionCountBranches branches

def conditionCountBranches : List (List Atom) → Except ShapeError Nat
  | [] => .ok 0
  | branch :: branches => do
      let count ← conditionCountAtoms branch
      let rest ← conditionCountBranches branches
      .ok (count + rest)

def conditionCountAtoms : List Atom → Except ShapeError Nat
  | [] => .ok 0
  | atom :: atoms => do
      let count ← conditionCountAtom atom
      let rest ← conditionCountAtoms atoms
      .ok (count + rest)

/-- `_condition_count_atom`. -/
def conditionCountAtom : Atom → Except ShapeError Nat
  | .not body => do
      let count ← conditionCount body
      .ok (1 + count)
  | .pred _ terms | .builtin _ terms => do
      let count ← aggregateConditionCounts terms
      .ok (1 + count)
  | .cmp _ lhs rhs => do
      let left ← aggregateConditionCount lhs
      let right ← aggregateConditionCount rhs
      .ok (1 + (left + right))
  | .inn .. => .ok 1
  | .ruleref .. => .error unsupportedAtom

def aggregateConditionCounts : List Term → Except ShapeError Nat
  | [] => .ok 0
  | term :: terms => do
      let count ← aggregateConditionCount term
      let rest ← aggregateConditionCounts terms
      .ok (count + rest)

/-- `_aggregate_condition_count`. -/
def aggregateConditionCount : Term → Except ShapeError Nat
  | .agg _ _ filter => conditionCountAtoms filter
  | .var _ | .const _ => .ok 0

end

/-! ## Work -/

/-- `relation_scan_bound`. -/
def relationScanBound (counts : List (String × Nat)) : Nat := max 1 (counts.map Prod.snd).sum

/-- `_estimate_verification_work`. -/
def estimateVerificationWork (expression : WhereExpr) (counts : List (String × Nat))
    (capturedRowCount : Nat) : Except ShapeError Nat := do
  let bindingUpperBound ← estimateExpression counts expression
  let conditions ← conditionCount expression
  let scansPerBinding := saturatingMultiply 3
    (saturatingMultiply (max 1 conditions) (relationScanBound counts))
  let rebuildCount := saturatingAdd bindingUpperBound capturedRowCount
  .ok (saturatingMultiply rebuildCount scansPerBinding)

/-! ## Estimates as products

An estimate is cut off at each step. It could as well be cut off at the end, since no factor is zero. -/

/-- One past the limit, at most. -/
def cutOff (n : Nat) : Nat := Saturating.cut maxWork n

section

variable {counts : List (String × Nat)}

/-- What a term contributes to a factor. -/
def termShare (counts : List (String × Nat)) : Term → Except ShapeError Nat
  | .agg _ _ filter => (estimateAtoms counts 1 filter).map (max 1)
  | .var _ | .const _ => .ok 1

theorem one_le_termShare {t : Term} {share : Nat} (h : termShare counts t = .ok share) : 1 ≤ share := by
  unfold termShare at h
  split at h
  · rw [Protocol.map_ok_iff] at h
    obtain ⟨estimate, -, rfl⟩ := h
    exact le_max_left _ _
  all_goals
    cases h
    exact le_refl 1

theorem termFactor_eq (factor : Nat) (t : Term) :
    termFactor counts (cutOff factor) t =
      (termShare counts t).map fun share => cutOff (factor * share) := by
  cases t with
  | agg kind target filter =>
    rw [termFactor, termShare]
    cases estimateAtoms counts 1 filter with
    | error e => rfl
    | ok estimate =>
      rw [ok_bind]
      unfold saturatingMultiply cutOff
      rw [Saturating.mul_eq, Saturating.cut_cut_mul (le_max_left 1 estimate)]
      rfl
  | var x =>
    rw [termFactor, termShare]
    simp only [Except.map, Nat.mul_one]
  | const v =>
    rw [termFactor, termShare]
    simp only [Except.map, Nat.mul_one]

theorem termFactors_eq (factor : Nat) (ts : List Term) :
    termFactors counts (cutOff factor) ts =
      (mapOk (termShare counts) ts).map fun shares => cutOff (factor * shares.prod) := by
  induction ts generalizing factor with
  | nil =>
    rw [termFactors, mapOk]
    simp only [Except.map, List.prod_nil, Nat.mul_one]
  | cons t ts ih =>
    rw [termFactors, termFactor_eq, mapOk]
    cases termShare counts t with
    | error e => rfl
    | ok share =>
      simp only [Except.map, ok_bind, ih]
      cases mapOk (termShare counts) ts with
      | error e => rfl
      | ok shares =>
        simp only [ok_bind, List.prod_cons, Nat.mul_assoc]

/-- The terms that an atom evaluates. -/
def evaluatedTerms : Atom → List Term
  | .pred _ terms | .builtin _ terms => terms
  | .cmp _ lhs rhs => [lhs, rhs]
  | .inn .. | .not _ | .ruleref .. => []

/-- The factor of the terms of an atom. -/
theorem termFactors_ok_iff {ts : List Term} {n : Nat} :
    termFactors counts 1 ts = .ok n ↔
      ∃ shares, mapOk (termShare counts) ts = .ok shares ∧ n = cutOff shares.prod := by
  have hone : (1 : Nat) = cutOff 1 := rfl
  rw [hone, termFactors_eq, Protocol.map_ok_iff]
  simp only [Nat.one_mul, eq_comm]

theorem one_le_of_mapOk {A : Type} {f : A → Except ShapeError Nat}
    (hpos : ∀ a n, f a = .ok n → 1 ≤ n) {as : List A} {ns : List Nat} (h : mapOk f as = .ok ns) :
    ∀ n ∈ ns, 1 ≤ n := by
  intro n hn
  obtain ⟨a, -, ha⟩ := mem_of_mapOk h hn
  exact hpos a n ha

theorem one_le_termFactors {ts : List Term} {n : Nat} (h : termFactors counts 1 ts = .ok n) :
    1 ≤ n := by
  obtain ⟨shares, hshares, rfl⟩ := termFactors_ok_iff.mp h
  exact Saturating.one_le_cut (List.one_le_prod_of_one_le
    (one_le_of_mapOk (fun _ _ => one_le_termShare) hshares))

theorem termFactor_pair {lhs rhs : Term} :
    (do
      let factor ← termFactor counts 1 lhs
      termFactor counts factor rhs) = termFactors counts 1 [lhs, rhs] := by
  simp only [termFactors]
  cases termFactor counts 1 lhs with
  | error e => rfl
  | ok factor =>
    simp only [ok_bind]
    cases termFactor counts factor rhs with
    | error e => rfl
    | ok n => rfl

theorem one_le_atomFactor {a : Atom} {n : Nat} (h : atomFactor counts a = .ok n) : 1 ≤ n := by
  cases a with
  | pred predId terms =>
    rw [atomFactor, bind_ok_iff] at h
    obtain ⟨factor, hfactor, heq⟩ := h
    cases heq
    exact Nat.mul_pos (lt_max_of_lt_left Nat.one_pos) (one_le_termFactors hfactor)
  | ruleref ruleId version terms => cases h
  | cmp op lhs rhs =>
    rw [atomFactor, termFactor_pair] at h
    exact one_le_termFactors h
  | inn x values =>
    cases h
    exact le_max_left _ _
  | builtin op args => exact one_le_termFactors h
  | not body =>
    rw [atomFactor, bind_ok_iff] at h
    obtain ⟨estimate, -, heq⟩ := h
    cases heq
    exact le_max_left _ _

theorem estimateAtoms_eq (work : Nat) (atoms : List Atom) :
    estimateAtoms counts work atoms =
      (mapOk (atomFactor counts) atoms).map fun factors =>
        factors.foldl saturatingMultiply work := by
  induction atoms generalizing work with
  | nil =>
    rw [estimateAtoms]
    rfl
  | cons a atoms ih =>
    rw [estimateAtoms, mapOk]
    cases atomFactor counts a with
    | error e => rfl
    | ok factor =>
      simp only [ok_bind, ih]
      cases mapOk (atomFactor counts) atoms with
      | error e => rfl
      | ok factors => rfl

/-- **The estimate of a branch is the product of the factors of its atoms.** -/
theorem estimateAtoms_ok_iff {atoms : List Atom} {n : Nat} :
    estimateAtoms counts 1 atoms = .ok n ↔
      ∃ factors, mapOk (atomFactor counts) atoms = .ok factors ∧ n = cutOff factors.prod := by
  rw [estimateAtoms_eq, Protocol.map_ok_iff]
  refine exists_congr fun factors => and_congr_right fun hfactors => ?_
  have hpos := one_le_of_mapOk (fun _ _ => one_le_atomFactor) hfactors
  have hprod := Saturating.foldl_mul_eq maxWork hpos 1
  rw [Nat.one_mul] at hprod
  unfold cutOff
  rw [← hprod]
  exact eq_comm

theorem estimateBranches_eq (total : Nat) (branches : List (List Atom)) :
    estimateBranches counts total branches =
      (mapOk (estimateAtoms counts 1) branches).map fun works =>
        works.foldl saturatingAdd total := by
  induction branches generalizing total with
  | nil =>
    rw [estimateBranches]
    rfl
  | cons b branches ih =>
    rw [estimateBranches, mapOk]
    cases estimateAtoms counts 1 b with
    | error e => rfl
    | ok work =>
      simp only [ok_bind, ih]
      cases mapOk (estimateAtoms counts 1) branches with
      | error e => rfl
      | ok works => rfl

/-- **The estimate of a clause is the sum of those of its branches.** -/
theorem estimateExpression_ok_iff {w : WhereExpr} {n : Nat} :
    estimateExpression counts w = .ok n ↔
      ∃ works, mapOk (estimateAtoms counts 1) w.branches = .ok works ∧ n = cutOff works.sum := by
  cases w with
  | and atoms =>
    rw [estimateExpression, WhereExpr.branches, mapOk, mapOk]
    constructor
    · intro h
      obtain ⟨factors, -, hn⟩ := estimateAtoms_ok_iff.mp h
      refine ⟨[n], ?_, ?_⟩
      · rw [h]
        rfl
      · have hcut : n ≤ maxWork + 1 := by
          rw [hn]
          exact min_le_left _ _
        rw [List.sum_singleton]
        exact (min_eq_right hcut).symm
    · rintro ⟨works, hworks, hn⟩
      rw [bind_ok_iff] at hworks
      obtain ⟨work, hwork, heq⟩ := hworks
      cases heq
      obtain ⟨factors, -, hcut⟩ := estimateAtoms_ok_iff.mp hwork
      have hle : work ≤ maxWork + 1 := by
        rw [hcut]
        exact min_le_left _ _
      rw [hn, List.sum_singleton, hwork]
      exact congrArg Except.ok (min_eq_right hle).symm
  | or branches =>
    rw [estimateExpression, WhereExpr.branches, estimateBranches_eq, Protocol.map_ok_iff]
    refine exists_congr fun works => and_congr_right fun _ => ?_
    have hsum := Saturating.foldl_add_eq maxWork works 0
    rw [Nat.zero_add] at hsum
    unfold cutOff
    rw [← hsum]
    exact eq_comm

end

/-!
## Clauses and relations that grow

A clause grows by atoms: in a branch, in the body of a `not`, in the filter of an aggregate, and by
branches. **What has grown is not estimated lower** (`where_dearer`), since a factor is at least one; nor
are relations with more facts.
-/

/-! ## Growing -/

mutual

/-- More atoms in the filter of an aggregate. -/
def TermGrows : Term → Term → Prop
  | .agg kind target filter, t => ∃ filter', t = .agg kind target filter' ∧ AtomsGrow filter filter'
  | .var x, t => t = .var x
  | .const v, t => t = .const v

def TermsGrow : List Term → List Term → Prop
  | [], ts => ts = []
  | t :: ts, ts' => ∃ t' rest, ts' = t' :: rest ∧ TermGrows t t' ∧ TermsGrow ts rest

/-- More atoms inside an atom. -/
def AtomGrows : Atom → Atom → Prop
  | .pred predId terms, a => ∃ terms', a = .pred predId terms' ∧ TermsGrow terms terms'
  | .ruleref ruleId version terms, a => a = .ruleref ruleId version terms
  | .cmp op lhs rhs, a => ∃ lhs' rhs', a = .cmp op lhs' rhs' ∧ TermGrows lhs lhs' ∧ TermGrows rhs rhs'
  | .inn x values, a => a = .inn x values
  | .builtin op args, a => ∃ args', a = .builtin op args' ∧ TermsGrow args args'
  | .not body, a => ∃ body', a = .not body' ∧ WhereGrows body body'

/-- More atoms, before, between, after or inside those of a body. -/
def AtomsGrow : List Atom → List Atom → Prop
  | [], _ => True
  | a :: as, as' => ∃ before a' after, as' = before ++ a' :: after ∧ AtomGrows a a' ∧ AtomsGrow as after

/-- More atoms in the branches, and more branches. -/
def BranchesGrow : List (List Atom) → List (List Atom) → Prop
  | [], _ => True
  | b :: bs, bs' => ∃ before b' after, bs' = before ++ b' :: after ∧ AtomsGrow b b' ∧ BranchesGrow bs after

/-- More atoms in a clause. -/
def WhereGrows : WhereExpr → WhereExpr → Prop
  | .and atoms, w => ∃ atoms', w = .and atoms' ∧ AtomsGrow atoms atoms'
  | .or branches, w => ∃ branches', w = .or branches' ∧ BranchesGrow branches branches'

end

/-- More facts: in the same relations, or in more. -/
def RelationsGrow (relations relations' : Relations) : Prop :=
  ∀ item ∈ relations.items, ∃ item' ∈ relations'.items,
    item'.predicateId = item.predicateId ∧ item.facts.Sublist item'.facts

/-! ## Dearer

A thing is dearer than another if it has no smaller factor and no fewer conditions. What grows gets
dearer, from the terms up. -/

/-- No smaller price and no smaller count. -/
structure Dearer {A : Type} (price price' count : A → Except ShapeError Nat) (a a' : A) : Prop where
  price_le : ∀ n n', price a = .ok n → price' a' = .ok n' → n ≤ n'
  count_le : ∀ n n', count a = .ok n → count a' = .ok n' → n ≤ n'

/-- The values of a list that has grown. -/
theorem values_grow {A : Type} {f f' : A → Except ShapeError Nat} {as as' : List A}
    (h : List.SublistForall₂ (fun a a' => ∀ n n', f a = .ok n → f' a' = .ok n' → n ≤ n') as as')
    {ns ns' : List Nat} (hns : mapOk f as = .ok ns) (hns' : mapOk f' as' = .ok ns') :
    List.SublistForall₂ (· ≤ ·) ns ns' := by
  induction h generalizing ns ns' with
  | nil =>
    cases hns
    exact .nil
  | cons hle _ ih =>
    simp only [mapOk, bind_ok_iff] at hns hns'
    obtain ⟨n, hn, rest, hrest, heq⟩ := hns
    obtain ⟨n', hn', rest', hrest', heq'⟩ := hns'
    cases heq
    cases heq'
    exact .cons (hle n n' hn hn') (ih hrest hrest')
  | cons_right _ ih =>
    simp only [mapOk, bind_ok_iff] at hns'
    obtain ⟨n', -, rest', hrest', heq'⟩ := hns'
    cases heq'
    exact .cons_right (ih hns hrest')

/-- Conditions are counted by adding them up. -/
theorem count_eq {A : Type} {count : A → Except ShapeError Nat} {counts : List A → Except ShapeError Nat}
    (hnil : counts [] = .ok 0)
    (hcons : ∀ a as, counts (a :: as) = (do
      let n ← count a
      let rest ← counts as
      .ok (n + rest))) (as : List A) : counts as = (mapOk count as).map List.sum := by
  induction as with
  | nil =>
    rw [hnil]
    rfl
  | cons a as ih =>
    rw [hcons, mapOk, ih]
    cases count a with
    | error e => rfl
    | ok n =>
      cases mapOk count as with
      | error e => rfl
      | ok ns => rfl

theorem count_grows {A : Type} {count : A → Except ShapeError Nat}
    {counts : List A → Except ShapeError Nat} (heq : ∀ as, counts as = (mapOk count as).map List.sum)
    {as as' : List A}
    (h : List.SublistForall₂ (fun a a' => ∀ n n', count a = .ok n → count a' = .ok n' → n ≤ n') as as')
    {n n' : Nat} (hn : counts as = .ok n) (hn' : counts as' = .ok n') : n ≤ n' := by
  rw [heq, Protocol.map_ok_iff] at hn hn'
  obtain ⟨ns, hns, rfl⟩ := hn
  obtain ⟨ns', hns', rfl⟩ := hn'
  exact (values_grow h hns hns').sum_le_sum fun _ _ => Nat.zero_le _

section Dearer

variable {counts counts' : List (String × Nat)}

/-- A term is dearer. -/
def TermDearer (counts counts' : List (String × Nat)) : Term → Term → Prop :=
  Dearer (termShare counts) (termShare counts') aggregateConditionCount

/-- An atom is dearer. -/
def AtomDearer (counts counts' : List (String × Nat)) : Atom → Atom → Prop :=
  Dearer (atomFactor counts) (atomFactor counts') conditionCountAtom

/-- A body is dearer. -/
def BodyDearer (counts counts' : List (String × Nat)) : List Atom → List Atom → Prop :=
  Dearer (estimateAtoms counts 1) (estimateAtoms counts' 1) conditionCountAtoms

/-- A clause is dearer. -/
def WhereDearer (counts counts' : List (String × Nat)) : WhereExpr → WhereExpr → Prop :=
  Dearer (estimateExpression counts) (estimateExpression counts') conditionCount

theorem sublistForall₂_imp {A : Type} {R S : A → A → Prop} (hRS : ∀ a b, R a b → S a b) {as as' : List A}
    (h : List.SublistForall₂ R as as') : List.SublistForall₂ S as as' := by
  obtain ⟨l, hall, hsub⟩ := List.sublistForall₂_iff.mp h
  exact List.sublistForall₂_iff.mpr ⟨l, hall.imp hRS, hsub⟩

theorem sublist_of_forall₂ {A : Type} {R : A → A → Prop} {as as' : List A} (h : List.Forall₂ R as as') :
    List.SublistForall₂ R as as' := List.sublistForall₂_iff.mpr ⟨as', h, List.Sublist.refl _⟩

theorem terms_le {ts ts' : List Term} (h : List.Forall₂ (TermDearer counts counts') ts ts') {n n' : Nat}
    (hn : termFactors counts 1 ts = .ok n) (hn' : termFactors counts' 1 ts' = .ok n') : n ≤ n' := by
  obtain ⟨shares, hshares, rfl⟩ := termFactors_ok_iff.mp hn
  obtain ⟨shares', hshares', rfl⟩ := termFactors_ok_iff.mp hn'
  refine Saturating.cut_mono ?_
  exact (values_grow (sublist_of_forall₂ (h.imp fun _ _ => Dearer.price_le)) hshares hshares').prod_le_prod'
    (one_le_of_mapOk (fun _ _ => one_le_termShare) hshares')

theorem termCounts_le {ts ts' : List Term} (h : List.Forall₂ (TermDearer counts counts') ts ts')
    {n n' : Nat} (hn : aggregateConditionCounts ts = .ok n) (hn' : aggregateConditionCounts ts' = .ok n') :
    n ≤ n' :=
  count_grows (count_eq (by rw [aggregateConditionCounts]) fun t ts => by rw [aggregateConditionCounts])
    (sublist_of_forall₂ (h.imp fun _ _ => Dearer.count_le)) hn hn'

theorem body_dearer {as as' : List Atom} (h : List.SublistForall₂ (AtomDearer counts counts') as as') :
    BodyDearer counts counts' as as' where
  price_le := by
    intro n n' hn hn'
    obtain ⟨factors, hfactors, rfl⟩ := estimateAtoms_ok_iff.mp hn
    obtain ⟨factors', hfactors', rfl⟩ := estimateAtoms_ok_iff.mp hn'
    refine Saturating.cut_mono ?_
    exact (values_grow (sublistForall₂_imp (fun _ _ => Dearer.price_le) h) hfactors hfactors').prod_le_prod'
      (one_le_of_mapOk (fun _ _ => one_le_atomFactor) hfactors')
  count_le := fun n n' hn hn' =>
    count_grows (count_eq (by rw [conditionCountAtoms]) fun a as => by rw [conditionCountAtoms])
      (sublistForall₂_imp (fun _ _ => Dearer.count_le) h) hn hn'

/-- Bodies in the place of others. -/
theorem branches_price_le {bs bs' : List (List Atom)}
    (h : List.SublistForall₂ (BodyDearer counts counts') bs bs') {ns ns' : List Nat}
    (hns : mapOk (estimateAtoms counts 1) bs = .ok ns)
    (hns' : mapOk (estimateAtoms counts' 1) bs' = .ok ns') : ns.sum ≤ ns'.sum :=
  (values_grow (sublistForall₂_imp (fun _ _ => Dearer.price_le) h) hns hns').sum_le_sum
    fun _ _ => Nat.zero_le _

theorem where_dearer_of_branches {w w' : WhereExpr}
    (h : List.SublistForall₂ (BodyDearer counts counts') w.branches w'.branches) :
    WhereDearer counts counts' w w' where
  price_le := by
    intro n n' hn hn'
    obtain ⟨works, hworks, rfl⟩ := estimateExpression_ok_iff.mp hn
    obtain ⟨works', hworks', rfl⟩ := estimateExpression_ok_iff.mp hn'
    exact Saturating.cut_mono (branches_price_le h hworks hworks')
  count_le := by
    have hcount : ∀ w : WhereExpr, conditionCount w =
        (mapOk conditionCountAtoms w.branches).map List.sum := by
      intro w
      cases w with
      | and atoms =>
        rw [conditionCount, WhereExpr.branches, mapOk, mapOk]
        cases conditionCountAtoms atoms with
        | error e => rfl
        | ok n => rfl
      | or branches =>
        rw [conditionCount]
        exact count_eq (by rw [conditionCountBranches]) (fun b bs => by rw [conditionCountBranches]) branches
    intro n n' hn hn'
    rw [hcount, Protocol.map_ok_iff] at hn hn'
    obtain ⟨ns, hns, rfl⟩ := hn
    obtain ⟨ns', hns', rfl⟩ := hn'
    exact (values_grow (sublistForall₂_imp (fun _ _ => Dearer.count_le) h) hns hns').sum_le_sum
      fun _ _ => Nat.zero_le _

/-- A list with one item in the place of another, and more before and after it. -/
theorem sublist_insert {A : Type} {R : A → A → Prop} {a a' : A} {as before after : List A} (ha : R a a')
    (has : List.SublistForall₂ R as after) : List.SublistForall₂ R (a :: as) (before ++ a' :: after) := by
  induction before with
  | nil => exact .cons ha has
  | cons _ _ ih => exact .cons_right ih

/-- No predicate has fewer rows. -/
def CountsLe (counts counts' : List (String × Nat)) : Prop :=
  ∀ predId, (Dict.get? counts predId).getD 0 ≤ (Dict.get? counts' predId).getD 0

mutual

theorem term_dearer (hcounts : CountsLe counts counts') :
    ∀ (t : Term) {t' : Term}, TermGrows t t' → TermDearer counts counts' t t'
  | .var x, _, h => by
    rw [TermGrows] at h
    subst h
    exact ⟨fun n n' hn hn' => by cases hn; cases hn'; exact le_refl 1,
      fun n n' hn hn' => by cases hn; cases hn'; exact le_refl 0⟩
  | .const v, _, h => by
    rw [TermGrows] at h
    subst h
    exact ⟨fun n n' hn hn' => by cases hn; cases hn'; exact le_refl 1,
      fun n n' hn hn' => by cases hn; cases hn'; exact le_refl 0⟩
  | .agg kind target filter, t', h => by
    rw [TermGrows] at h
    obtain ⟨filter', rfl, hfilter⟩ := h
    have hbody := body_dearer (atoms_dearer hcounts _ hfilter)
    refine ⟨fun n n' hn hn' => ?_, fun n n' hn hn' => ?_⟩
    · rw [termShare, Protocol.map_ok_iff] at hn hn'
      obtain ⟨m, hm, rfl⟩ := hn
      obtain ⟨m', hm', rfl⟩ := hn'
      exact max_le_max_left 1 (hbody.price_le m m' hm hm')
    · rw [aggregateConditionCount] at hn hn'
      exact hbody.count_le n n' hn hn'
  termination_by structural t => t

theorem terms_dearer (hcounts : CountsLe counts counts') :
    ∀ (ts : List Term) {ts' : List Term}, TermsGrow ts ts' →
      List.Forall₂ (TermDearer counts counts') ts ts'
  | [], _, h => by
    rw [TermsGrow] at h
    subst h
    exact .nil
  | t :: ts, _, h => by
    rw [TermsGrow] at h
    obtain ⟨t', ts', rfl, ht, hts⟩ := h
    exact .cons (term_dearer hcounts _ ht) (terms_dearer hcounts _ hts)
  termination_by structural ts => ts

/-- **An atom that has grown is dearer.** -/
theorem atom_dearer (hcounts : CountsLe counts counts') :
    ∀ (a : Atom) {a' : Atom}, AtomGrows a a' → AtomDearer counts counts' a a'
  | .pred predId terms, _, h => by
    rw [AtomGrows] at h
    obtain ⟨terms', rfl, hterms⟩ := h
    have hdearer := terms_dearer hcounts _ hterms
    -- price and count of conditions, in each case
    refine ⟨fun n n' hn hn' => ?_, fun n n' hn hn' => ?_⟩
    · rw [atomFactor, bind_ok_iff] at hn hn'
      obtain ⟨m, hm, heq⟩ := hn
      obtain ⟨m', hm', heq'⟩ := hn'
      cases heq
      cases heq'
      exact Nat.mul_le_mul (max_le_max_left 1 (hcounts predId)) (terms_le hdearer hm hm')
    · rw [conditionCountAtom, bind_ok_iff] at hn hn'
      obtain ⟨m, hm, heq⟩ := hn
      obtain ⟨m', hm', heq'⟩ := hn'
      cases heq
      cases heq'
      exact Nat.add_le_add_left (termCounts_le hdearer hm hm') 1
  | .ruleref ruleId version terms, _, h => by
    rw [AtomGrows] at h
    subst h
    exact ⟨fun n n' hn => (by cases hn), fun n n' hn => (by cases hn)⟩
  | .cmp op lhs rhs, _, h => by
    rw [AtomGrows] at h
    obtain ⟨lhs', rhs', rfl, hlhs, hrhs⟩ := h
    have hdearer : List.Forall₂ (TermDearer counts counts') [lhs, rhs] [lhs', rhs'] :=
      .cons (term_dearer hcounts _ hlhs) (.cons (term_dearer hcounts _ hrhs) .nil)
    refine ⟨fun n n' hn hn' => ?_, fun n n' hn hn' => ?_⟩
    · rw [atomFactor, termFactor_pair] at hn hn'
      exact terms_le hdearer hn hn'
    · simp only [conditionCountAtom, bind_ok_iff] at hn hn'
      obtain ⟨l, hl, r, hr, heq⟩ := hn
      obtain ⟨l', hl', r', hr', heq'⟩ := hn'
      cases heq
      cases heq'
      have hleft := (term_dearer hcounts _ hlhs).count_le l l' hl hl'
      have hright := (term_dearer hcounts _ hrhs).count_le r r' hr hr'
      omega
  | .inn x values, _, h => by
    rw [AtomGrows] at h
    subst h
    refine ⟨fun n n' hn hn' => ?_, fun n n' hn hn' => ?_⟩
    · cases hn
      cases hn'
      exact le_refl _
    · cases hn
      cases hn'
      exact le_refl _
  | .builtin op args, _, h => by
    rw [AtomGrows] at h
    obtain ⟨args', rfl, hargs⟩ := h
    have hdearer := terms_dearer hcounts _ hargs
    refine ⟨fun n n' hn hn' => ?_, fun n n' hn hn' => ?_⟩
    · rw [atomFactor] at hn hn'
      exact terms_le hdearer hn hn'
    · rw [conditionCountAtom, bind_ok_iff] at hn hn'
      obtain ⟨m, hm, heq⟩ := hn
      obtain ⟨m', hm', heq'⟩ := hn'
      cases heq
      cases heq'
      exact Nat.add_le_add_left (termCounts_le hdearer hm hm') 1
  | .not body, _, h => by
    rw [AtomGrows] at h
    obtain ⟨body', rfl, hbody⟩ := h
    have hdearer := where_dearer hcounts _ hbody
    refine ⟨fun n n' hn hn' => ?_, fun n n' hn hn' => ?_⟩
    · rw [atomFactor, bind_ok_iff] at hn hn'
      obtain ⟨m, hm, heq⟩ := hn
      obtain ⟨m', hm', heq'⟩ := hn'
      cases heq
      cases heq'
      exact max_le_max_left 1 (hdearer.price_le m m' hm hm')
    · rw [conditionCountAtom, bind_ok_iff] at hn hn'
      obtain ⟨m, hm, heq⟩ := hn
      obtain ⟨m', hm', heq'⟩ := hn'
      cases heq
      cases heq'
      exact Nat.add_le_add_left (hdearer.count_le m m' hm hm') 1
  termination_by structural a => a

theorem atoms_dearer (hcounts : CountsLe counts counts') :
    ∀ (as : List Atom) {as' : List Atom}, AtomsGrow as as' →
      List.SublistForall₂ (AtomDearer counts counts') as as'
  | [], _, _ => .nil
  | a :: as, _, h => by
    rw [AtomsGrow] at h
    obtain ⟨before, a', after, rfl, ha, has⟩ := h
    exact sublist_insert (atom_dearer hcounts _ ha) (atoms_dearer hcounts _ has)
  termination_by structural as => as

theorem branches_dearer (hcounts : CountsLe counts counts') :
    ∀ (bs : List (List Atom)) {bs' : List (List Atom)}, BranchesGrow bs bs' →
      List.SublistForall₂ (BodyDearer counts counts') bs bs'
  | [], _, _ => .nil
  | b :: bs, _, h => by
    rw [BranchesGrow] at h
    obtain ⟨before, b', after, rfl, hb, hbs⟩ := h
    exact sublist_insert (body_dearer (atoms_dearer hcounts _ hb)) (branches_dearer hcounts _ hbs)
  termination_by structural bs => bs

/-- **A clause that has grown is dearer.** -/
theorem where_dearer (hcounts : CountsLe counts counts') :
    ∀ (w : WhereExpr) {w' : WhereExpr}, WhereGrows w w' → WhereDearer counts counts' w w'
  | .and atoms, _, h => by
    rw [WhereGrows] at h
    obtain ⟨atoms', rfl, hatoms⟩ := h
    exact where_dearer_of_branches (.cons (body_dearer (atoms_dearer hcounts _ hatoms)) .nil)
  | .or branches, _, h => by
    rw [WhereGrows] at h
    obtain ⟨branches', rfl, hbranches⟩ := h
    exact where_dearer_of_branches (branches_dearer hcounts _ hbranches)
  termination_by structural w => w

end

end Dearer

end FactGraph.Evaluate
