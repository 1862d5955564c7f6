import FactGraph.Rules.Adequacy.Clauses

/-!
# Flat clauses

A flat clause is a conjunction of predicate atoms over variables, followed by comparisons of those
variables with literals. When the cells of every variable are of one kind, and the literals can be
compared with it, the evaluator returns, and what it returns is the list of the bindings that solve
the clause, each once.
-/

namespace FactGraph.Rules

open Check Enumeration

/-! ## Clauses -/

/-- A comparison of a variable with a literal. -/
structure FlatTest where
  op : CmpOp
  var : String
  value : Value

/-- The predicate atoms, each with its variables, and the comparisons. -/
structure FlatClause where
  rows : List (String × List String)
  tests : List FlatTest

namespace FlatClause

def rowAtom (r : String × List String) : Atom := .pred r.1 (r.2.map .var)

def testAtom (t : FlatTest) : Atom := .cmp t.op (.var t.var) (.const t.value)

def rowAtoms (q : FlatClause) : List Atom := q.rows.map rowAtom

def atoms (q : FlatClause) : List Atom := q.rowAtoms ++ q.tests.map testAtom

/-- The variables of the predicate atoms. -/
def vars (q : FlatClause) : Scope := (q.rows.flatMap Prod.snd).toFinset

end FlatClause

/-! ## Kinds -/

/-- The kinds of cells that are ordered among themselves, and on which `==` is identity. -/
inductive Kind where
  | text | int | bool
  deriving DecidableEq

def Kind.Holds : Kind → Value → Prop
  | .text, v => ∃ s, v = .str s
  | .int, v => ∃ i, v = .int i
  | .bool, v => ∃ b, v = .bool b

theorem eq_of_eqv_str {s : String} {w : Value} (h : (Value.str s).eqv w = true) : w = .str s := by
  rw [Value.eqv_iff] at h
  cases w <;> simp_all [Value.canon, Value.number?]

/-- Equal values of one kind are the same. -/
theorem Kind.Holds.eq_of_eqv {k : Kind} {v w : Value} (hv : k.Holds v)
    (hw : k = .text ∨ k.Holds w) (h : v.eqv w = true) : v = w := by
  cases k with
  | text =>
    obtain ⟨s, rfl⟩ := hv
    exact (eq_of_eqv_str h).symm
  | int =>
    obtain ⟨i, rfl⟩ := hv
    obtain ⟨j, rfl⟩ := hw.resolve_left nofun
    simpa [Value.canon, Value.number?] using h
  | bool =>
    obtain ⟨a, rfl⟩ := hv
    obtain ⟨b, rfl⟩ := hw.resolve_left nofun
    revert h
    cases a <;> cases b <;> simp [Value.canon, Value.number?]

/-- Values of one kind are ordered. -/
theorem Kind.Holds.lt?_isSome {k : Kind} {v w : Value} (hv : k.Holds v) (hw : k.Holds w) :
    (v.lt? w).isSome = true := by
  cases k <;> obtain ⟨a, rfl⟩ := hv <;> obtain ⟨b, rfl⟩ := hw <;> rfl

/-! ## What is asked of a clause -/

/-- The cells of a row are of the kinds of their variables. The cell of a variable that has a value
already is only compared with it, so text takes any cell. -/
def CellsFit (kind : String → Kind) : Scope → List String → Fact → Prop
  | V, x :: xs, cell :: cells =>
      ((kind x).Holds cell ∨ x ∈ V ∧ kind x = .text) ∧ CellsFit kind (insert x V) xs cells
  | _, _, _ => True

/-- Every predicate of the clause is known, and its rows have the cells the variables take. -/
def RowsFit (ctx : EvalCtx) (kind : String → Kind) : Scope → List (String × List String) → Prop
  | _, [] => True
  | V, r :: rs => (∃ facts, ctx.viewFacts r.1 = some facts ∧
      ∀ fact ∈ facts, fact.length = r.2.length ∧ CellsFit kind V r.2 fact) ∧
      RowsFit ctx kind (V ∪ r.2.toFinset) rs

/-- A name the evaluator takes as a variable and keeps in its place. -/
def PlainVar (x : String) : Prop := isVarName x = true ∧ isSystemIdentityVar (.var x) = false

/-- A comparison that raises on no value of the variable. -/
def FlatTest.Applies (t : FlatTest) (kind : String → Kind) : Prop :=
  t.value.isLiteral = true ∧
    (t.op = .eq ∨ t.op = .ne ∨ kind t.var = .int ∧ ∃ i, t.value = .int i)

/-- What makes the evaluation of a clause return. -/
structure FlatClause.Runs (q : FlatClause) (ctx : EvalCtx) (kind : String → Kind) : Prop where
  nonempty : q.rows ≠ []
  named : ∀ r ∈ q.rows, r.1 ≠ "" ∧ r.2 ≠ [] ∧ ∀ x ∈ r.2, PlainVar x
  fit : RowsFit ctx kind ∅ q.rows
  tests : ∀ t ∈ q.tests, t.var ∈ q.vars ∧ t.Applies kind
  cells : NoNoneCells ctx.viewFacts

/-! ## What a clause means -/

/-- A comparison with a literal, on the value of the variable. -/
def TestHolds (op : CmpOp) (v w : Value) : Prop :=
  match op with
  | .eq => v.eqv w = true
  | .ne => v.eqv w = false
  | op => ∃ i j, v = .int i ∧ w = .int j ∧ cmpHolds op i j = true

/-- A row of the view is what the variables of an atom take. -/
def RowHolds (ctx : EvalCtx) (r : String × List String) (σ : Binding) : Prop :=
  ∃ facts, ctx.viewFacts r.1 = some facts ∧ ∃ fact ∈ facts, r.2.map σ = fact.map some

/-- **A binding solves the clause.** -/
structure FlatClause.Solves (q : FlatClause) (ctx : EvalCtx) (σ : Binding) : Prop where
  domain : ∀ x, x ∈ q.vars ↔ (σ x).isSome
  rows : ∀ r ∈ q.rows, RowHolds ctx r σ
  tests : ∀ t ∈ q.tests, ∃ v, σ t.var = some v ∧ TestHolds t.op v t.value

variable {ctx : EvalCtx} {kind : String → Kind} {q : FlatClause}

/-! ## Validation -/

open FlatClause

theorem varsInTerms_vars (xs : List String) : varsInTerms (xs.map .var) = xs.toFinset := by
  induction xs with
  | nil => rfl
  | cons x xs ih =>
    rw [List.map_cons, varsInTerms, varsInTerm, ih, List.toFinset_cons]
    rfl

theorem varTerms_vars (xs : List String) : varTerms (xs.map .var) = xs.toFinset := by
  induction xs with
  | nil => rfl
  | cons x xs ih => rw [List.map_cons, varTerms, ih, List.toFinset_cons]

theorem validateTermsShape_vars {xs : List String} (h : ∀ x ∈ xs, PlainVar x) :
    validateTermsShape false (xs.map .var) = .ok () := by
  induction xs with
  | nil => rfl
  | cons x xs ih =>
    rw [List.forall_mem_cons] at h
    rw [List.map_cons, validateTermsShape, bind_unit_ok_iff, validateTermShape, validateVarShape]
    exact ⟨require_of_true h.1.1, ih h.2⟩

theorem validateAtomsShape_iff {caps : Caps} {b : Bool} {as : List Atom} :
    validateAtomsShape caps b as = .ok () ↔ ∀ a ∈ as, validateAtomShape caps b a = .ok () := by
  induction as with
  | nil => simp [validateAtomsShape]
  | cons a as ih =>
    rw [validateAtomsShape, bind_unit_ok_iff, ih, List.forall_mem_cons]

theorem FlatClause.Runs.var_plain (h : q.Runs ctx kind) {x : String} (hx : x ∈ q.vars) :
    PlainVar x := by
  unfold FlatClause.vars at hx
  rw [List.mem_toFinset, List.mem_flatMap] at hx
  obtain ⟨r, hr, hx⟩ := hx
  exact (h.named r hr).2.2 x hx

theorem FlatClause.Runs.shape (h : q.Runs ctx kind) :
    ∀ a ∈ q.atoms, validateAtomShape .noRuleref false a = .ok () := by
  intro a ha
  rcases List.mem_append.mp ha with ha | ha
  · obtain ⟨r, hr, rfl⟩ := List.mem_map.mp ha
    obtain ⟨hp, hne, hvars⟩ := h.named r hr
    show validateAtomShape .noRuleref false (.pred r.1 (r.2.map .var)) = .ok ()
    unfold validateAtomShape
    rw [bind_unit_ok_iff, bind_unit_ok_iff]
    refine ⟨require_of_true (by simpa using hp), require_of_true ?_, validateTermsShape_vars hvars⟩
    cases hr2 : r.2 with
    | nil => exact absurd hr2 hne
    | cons x xs => rfl
  · obtain ⟨t, ht, rfl⟩ := List.mem_map.mp ha
    show validateAtomShape .noRuleref false (.cmp t.op (.var t.var) (.const t.value)) = .ok ()
    unfold validateAtomShape
    rw [bind_unit_ok_iff, bind_unit_ok_iff]
    refine ⟨require_of_true ?_, ?_, rfl⟩
    · cases t.op <;> rfl
    · rw [validateTermShape, validateVarShape]
      exact require_of_true (h.var_plain (h.tests t ht).1).1

theorem step_of_subset {st : FlowState} {effect : StepEffect} (outside : Scope)
    (h : effect.requires ⊆ st.bound) :
    ∃ st', st.step outside effect = .ok st' ∧ st'.bound = st.bound ∪ effect.binds := by
  unfold FlowState.step
  rw [if_pos (Finset.sdiff_eq_empty_iff_subset.mpr h)]
  exact ⟨_, rfl, rfl⟩

theorem dataflow_test {t : FlatTest} {st : FlowState} (ht : t.var ∈ st.bound) (rest : List Atom) :
    ∃ st' : FlowState, st.bound ⊆ st'.bound ∧
      validateAndDataflow ∅ st (testAtom t :: rest) = validateAndDataflow ∅ st' rest := by
  have hleaks : validateAggregateLeaks (testAtom t) st.bound rest = .ok () := by
    simp [validateAggregateLeaks, testAtom, aggregatesInAtom, aggregatesInTerm]
  have heffect : stepEffect st.bound (testAtom t) = .ok (.reading {t.var}) := by
    unfold testAtom stepEffect
    cases t.op <;> simp [termRequires, eqStepEffect, termIsResolved, ht]
  obtain ⟨st', hstep, hbound⟩ := @step_of_subset st (.reading {t.var}) ∅
    (Finset.singleton_subset_iff.mpr ht)
  refine ⟨st', ?_, ?_⟩
  · rw [hbound]
    exact Finset.subset_union_left
  · rw [validateAndDataflow]
    · rw [hleaks, ok_bind, heffect, ok_bind, hstep, ok_bind]
    · nofun

theorem dataflow_row {r : String × List String} {st : FlowState} (rest : List Atom) :
    ∃ st' : FlowState, st'.bound = st.bound ∪ r.2.toFinset ∧
      validateAndDataflow ∅ st (rowAtom r :: rest) = validateAndDataflow ∅ st' rest := by
  have hleaks : validateAggregateLeaks (rowAtom r) st.bound rest = .ok () := by
    simp [validateAggregateLeaks, rowAtom, aggregatesInAtom]
  obtain ⟨st', hstep, hbound⟩ := @step_of_subset st
    ⟨∅, varsInTerms (r.2.map .var), varsInTerms (r.2.map .var) ∩ st.bound⟩ ∅ (Finset.empty_subset _)
  refine ⟨st', ?_, ?_⟩
  · rw [hbound, varsInTerms_vars]
  · rw [validateAndDataflow]
    · rw [hleaks, ok_bind, rowAtom, stepEffect, ok_bind, hstep, ok_bind]
    · nofun

theorem dataflow_tests {st : FlowState} {ts : List FlatTest} (h : ∀ t ∈ ts, t.var ∈ st.bound) :
    ∃ st', validateAndDataflow ∅ st (ts.map testAtom) = .ok st' := by
  induction ts generalizing st with
  | nil => exact ⟨st, rfl⟩
  | cons t ts ih =>
    rw [List.forall_mem_cons] at h
    obtain ⟨st', hle, heq⟩ := dataflow_test h.1 (ts.map testAtom)
    rw [List.map_cons, heq]
    exact ih fun t' ht' => hle (h.2 t' ht')

theorem dataflow_rows {st : FlowState} {rs : List (String × List String)} (rest : List Atom) :
    ∃ st' : FlowState, st'.bound = st.bound ∪ (rs.flatMap Prod.snd).toFinset ∧
      validateAndDataflow ∅ st (rs.map rowAtom ++ rest) = validateAndDataflow ∅ st' rest := by
  induction rs generalizing st with
  | nil => exact ⟨st, by simp, rfl⟩
  | cons r rs ih =>
    obtain ⟨st₁, hbound₁, heq₁⟩ := @dataflow_row r st (rs.map rowAtom ++ rest)
    obtain ⟨st₂, hbound₂, heq₂⟩ := @ih st₁
    refine ⟨st₂, ?_, heq₁.trans heq₂⟩
    rw [hbound₂, hbound₁, List.flatMap_cons, List.toFinset_append, Finset.union_assoc]

theorem FlatClause.Runs.validate (h : q.Runs ctx kind) :
    validateWhereAst .noRuleref (.and q.atoms) = .ok () := by
  have hne : q.atoms.isEmpty = false := by
    unfold FlatClause.atoms rowAtoms
    cases hr : q.rows with
    | nil => exact absurd hr h.nonempty
    | cons r rs => rfl
  unfold validateWhereAst
  rw [bind_unit_ok_iff]
  constructor
  · unfold validateExprShape
    rw [bind_unit_ok_iff, hne]
    exact ⟨rfl, validateAtomsShape_iff.mpr h.shape⟩
  · unfold validateExprDataflow
    rw [bind_unit_ok_iff]
    refine ⟨rfl, ?_⟩
    obtain ⟨st, hbound, heq⟩ := @dataflow_rows (.start ∅) q.rows (q.tests.map testAtom)
    obtain ⟨st', hst'⟩ := @dataflow_tests st q.tests (by
      intro t ht
      rw [hbound]
      exact Finset.mem_union_right _ (h.tests t ht).1)
    rw [each_ok_iff]
    intro b hb
    obtain rfl := List.mem_singleton.mp hb
    rw [show q.atoms = q.rows.map rowAtom ++ q.tests.map testAtom from rfl, heq, hst']
    rfl

theorem FlatClause.Runs.normalize (h : q.Runs ctx kind) :
    normalizeWhere (.and q.atoms) = .ok () := by
  unfold normalizeWhere
  rw [bind_unit_ok_iff]
  constructor
  · apply require_of_true
    unfold FlatClause.atoms rowAtoms
    cases hr : q.rows with
    | nil => exact absurd hr h.nonempty
    | cons r rs => rfl
  rw [each_ok_iff]
  intro a ha
  rcases List.mem_append.mp ha with ha | ha
  · obtain ⟨r, -, rfl⟩ := List.mem_map.mp ha
    unfold rowAtom validateAtom
    apply require_of_true
    simp [Term.isAgg]
  · obtain ⟨t, ht, rfl⟩ := List.mem_map.mp ha
    show validateAtom (.cmp t.op (.var t.var) (.const t.value)) = .ok ()
    unfold validateAtom
    rw [bind_unit_ok_iff, bind_unit_ok_iff]
    refine ⟨rfl, ?_, ?_⟩
    · unfold validateEvalTerm
      exact require_of_true (h.tests t ht).2.1
    · cases t.op <;> rfl

/-! ## Scopes -/

theorem update_row (V : Scope) (r : String × List String) :
    updateBoundVarsForPlan V (rowAtom r) = V ∪ r.2.toFinset := by
  rw [rowAtom, updateBoundVarsForPlan, newlyBound, varTerms_vars]

theorem update_test {V : Scope} {t : FlatTest} (ht : t.var ∈ V) :
    updateBoundVarsForPlan V (testAtom t) = V := by
  unfold testAtom
  cases hop : t.op with
  | eq =>
    apply update_eq_of_known
    · simpa [termKnownForPlan] using ht
    · rfl
  | ne | gt | ge | lt | le => simp [updateBoundVarsForPlan, newlyBound]

theorem scopeAfter_append (V : Scope) (as bs : List Atom) :
    scopeAfter V (as ++ bs) = scopeAfter (scopeAfter V as) bs := List.foldl_append

theorem scopeAfter_rows (V : Scope) (rs : List (String × List String)) :
    scopeAfter V (rs.map rowAtom) = V ∪ (rs.flatMap Prod.snd).toFinset := by
  induction rs generalizing V with
  | nil => simp [scopeAfter]
  | cons r rs ih =>
    show scopeAfter (updateBoundVarsForPlan V (rowAtom r)) (rs.map rowAtom) = _
    rw [ih, update_row, List.flatMap_cons, List.toFinset_append, Finset.union_assoc]

theorem scopeAfter_tests {V : Scope} {ts : List FlatTest} (h : ∀ t ∈ ts, t.var ∈ V) :
    scopeAfter V (ts.map testAtom) = V := by
  induction ts with
  | nil => rfl
  | cons t ts ih =>
    rw [List.forall_mem_cons] at h
    show scopeAfter (updateBoundVarsForPlan V (testAtom t)) (ts.map testAtom) = V
    rw [update_test h.1, ih h.2]

theorem FlatClause.Runs.scope (h : q.Runs ctx kind) : scopeAfter ∅ q.atoms = q.vars := by
  unfold FlatClause.atoms FlatClause.rowAtoms
  rw [scopeAfter_append, scopeAfter_rows, Finset.empty_union]
  exact scopeAfter_tests fun t ht => (h.tests t ht).1

/-- No variable of the clause moves its atoms. -/
theorem FlatClause.Runs.plan (h : q.Runs ctx kind) (gate : Bool) (V : Scope) :
    planBodyAtoms gate id V q.atoms = .ok q.atoms := by
  have hsignal : bodyHasSystemIdentitySignal (q.atoms.map id) = false := by
    unfold bodyHasSystemIdentitySignal
    rw [List.map_id, List.any_eq_false]
    intro a ha
    rcases List.mem_append.mp ha with ha | ha
    · obtain ⟨r, hr, rfl⟩ := List.mem_map.mp ha
      unfold rowAtom
      simp only [List.any_map, Bool.not_eq_true, List.any_eq_false, Function.comp_apply]
      intro x hx
      exact ((h.named r hr).2.2 x hx).2
    · obtain ⟨t, -, rfl⟩ := List.mem_map.mp ha
      exact Bool.false_ne_true
  unfold planBodyAtoms
  rw [hsignal]
  simp

/-! ## Meaning -/

/-- The variables in scope have values of their kinds. -/
def OfKinds (kind : String → Kind) (V : Scope) (σ : Binding) : Prop :=
  ∀ x ∈ V, ∃ v, σ x = some v ∧ (kind x).Holds v

/-- On a row that fits, to join is to take the cells. -/
theorem joins_iff {V : Scope} {xs : List String} {fact : Fact} {σ : Binding}
    (hlen : fact.length = xs.length) (hfit : CellsFit kind V xs fact) (hV : OfKinds kind V σ) :
    Joins V (xs.map .var) fact σ ↔ xs.map σ = fact.map some := by
  induction xs generalizing V fact with
  | nil =>
    rw [List.length_eq_zero_iff.mp hlen]
    simp [Joins]
  | cons x xs ih =>
    cases fact with
    | nil => cases hlen
    | cons cell cells =>
      rw [List.length_cons, List.length_cons, Nat.add_right_cancel_iff] at hlen
      unfold CellsFit at hfit
      -- what is said of the first variable is that it has the cell
      have hhead : (if x ∈ V then ∃ v, σ x = some v ∧ v.eqv cell = true else σ x = some cell) ↔
          σ x = some cell := by
        split
        next hx =>
          obtain ⟨v, hv, hkind⟩ := hV x hx
          have hcell : kind x = .text ∨ (kind x).Holds cell := by
            rcases hfit.1 with hc | hc
            · exact .inr hc
            · exact .inl hc.2
          constructor
          · intro h
            obtain ⟨w, hw, heq⟩ := h
            rw [hv] at hw
            cases hw
            rw [hv, hkind.eq_of_eqv hcell heq]
          · intro h
            exact ⟨cell, h, Value.eqv_refl cell⟩
        next => exact Iff.rfl
      rw [List.map_cons, Joins, hhead, List.map_cons, List.map_cons, List.cons.injEq]
      apply and_congr_right
      intro hx
      apply ih hlen hfit.2
      intro y hy
      rcases Finset.mem_insert.mp hy with rfl | hy
      · rcases hfit.1 with hc | hc
        · exact ⟨cell, hx, hc⟩
        · exact hV y hc.1
      · exact hV y hy

theorem ofKinds_row {V : Scope} {xs : List String} {fact : Fact} {σ : Binding}
    (hlen : fact.length = xs.length) (hfit : CellsFit kind V xs fact) (hV : OfKinds kind V σ)
    (h : xs.map σ = fact.map some) : OfKinds kind (V ∪ xs.toFinset) σ := by
  induction xs generalizing V fact with
  | nil => simpa using hV
  | cons x xs ih =>
    cases fact with
    | nil => cases hlen
    | cons cell cells =>
      rw [List.length_cons, List.length_cons, Nat.add_right_cancel_iff] at hlen
      rw [List.map_cons, List.map_cons, List.cons.injEq] at h
      unfold CellsFit at hfit
      have hV' : OfKinds kind (insert x V) σ := by
        intro y hy
        rcases Finset.mem_insert.mp hy with rfl | hy
        · rcases hfit.1 with hc | hc
          · exact ⟨cell, h.1, hc⟩
          · exact hV y hc.1
        · exact hV y hy
      have hrest := ih hlen hfit.2 hV' h.2
      rwa [List.toFinset_cons, Finset.union_insert, ← Finset.insert_union]

theorem exists_chain_cons {a : Atom} {rel : AtomRel} {rest : RelItems} {V : Scope} {σ : Binding} :
    (∃ c, chain ((a, rel) :: rest) V σ c) ↔
      (∃ c, rel V σ c) ∧ ∃ c, chain rest (updateBoundVarsForPlan V a) σ c := by
  constructor
  · intro h
    obtain ⟨_, c₁, c₂, _, h₁, h₂⟩ := h
    exact ⟨⟨c₁, h₁⟩, c₂, h₂⟩
  · intro h
    obtain ⟨⟨c₁, h₁⟩, c₂, h₂⟩ := h
    exact ⟨c₁ ++ c₂, c₁, c₂, rfl, h₁, h₂⟩

theorem exists_rowRel_iff {V : Scope} {r : String × List String} {σ : Binding}
    (hfit : ∃ facts, ctx.viewFacts r.1 = some facts ∧
      ∀ fact ∈ facts, fact.length = r.2.length ∧ CellsFit kind V r.2 fact) (hV : OfKinds kind V σ) :
    (∃ c, atomRel ctx (rowAtom r) V σ c) ↔ RowHolds ctx r σ := by
  obtain ⟨facts, hfacts, hall⟩ := hfit
  constructor
  · intro h
    obtain ⟨_, facts', i, fact, hfacts', _, hi, _, hjoin⟩ := h
    rw [hfacts] at hfacts'
    cases hfacts'
    have hmem : fact ∈ facts := List.mem_of_getElem? hi
    exact ⟨facts, hfacts, fact, hmem, (joins_iff (hall fact hmem).1 (hall fact hmem).2 hV).mp hjoin⟩
  · intro h
    obtain ⟨facts', hfacts', fact, hmem, heq⟩ := h
    rw [hfacts] at hfacts'
    cases hfacts'
    obtain ⟨i, hi⟩ := List.mem_iff_getElem?.mp hmem
    refine ⟨[i], facts, i, fact, hfacts, rfl, hi, ?_, ?_⟩
    · rw [List.length_map]
      exact (hall fact hmem).1
    · exact (joins_iff (hall fact hmem).1 (hall fact hmem).2 hV).mpr heq

theorem ofKinds_of_rowHolds {V : Scope} {r : String × List String} {σ : Binding}
    (hfit : ∃ facts, ctx.viewFacts r.1 = some facts ∧
      ∀ fact ∈ facts, fact.length = r.2.length ∧ CellsFit kind V r.2 fact) (hV : OfKinds kind V σ)
    (h : RowHolds ctx r σ) : OfKinds kind (V ∪ r.2.toFinset) σ := by
  obtain ⟨facts, hfacts, hall⟩ := hfit
  obtain ⟨facts', hfacts', fact, hmem, heq⟩ := h
  rw [hfacts] at hfacts'
  cases hfacts'
  exact ofKinds_row (hall fact hmem).1 (hall fact hmem).2 hV heq

theorem ofKinds_of_rows : ∀ {rs : List (String × List String)} {V : Scope} {σ : Binding},
    RowsFit ctx kind V rs → OfKinds kind V σ → (∀ r ∈ rs, RowHolds ctx r σ) →
      OfKinds kind (V ∪ (rs.flatMap Prod.snd).toFinset) σ := by
  intro rs
  induction rs with
  | nil =>
    intro V σ _ hV _
    simpa using hV
  | cons r rs ih =>
    intro V σ hfit hV h
    rw [List.forall_mem_cons] at h
    have hrest := ih hfit.2 (ofKinds_of_rowHolds hfit.1 hV h.1) h.2
    rwa [List.flatMap_cons, List.toFinset_append, ← Finset.union_assoc]

theorem exists_testRel_iff {V : Scope} {t : FlatTest} {σ : Binding} (ht : t.var ∈ V)
    (happlies : t.Applies kind) (hV : OfKinds kind V σ) :
    (∃ c, atomRel ctx (testAtom t) V σ c) ↔
      ∃ v, σ t.var = some v ∧ TestHolds t.op v t.value := by
  obtain ⟨v, hv, hkind⟩ := hV t.var ht
  have hvar : ∀ r, varRel t.var V σ r ↔ r = .value v := by
    intro r
    unfold varRel
    rw [if_pos ht, hv]
    simp
  obtain ⟨op, x, w⟩ := t
  have hord : ∀ o : CmpOp, kind x = .int ∧ (∃ i, w = .int i) → o ≠ .eq → o ≠ .ne →
      ((∃ c, cmpRel o (.var x, varRel x) (.const w, fun _ _ r => r = .value w) V σ c) ↔
        TestHolds o v w) := by
    intro o hint heq hne
    obtain ⟨hk, j, rfl⟩ := hint
    rw [hk] at hkind
    obtain ⟨i, rfl⟩ := hkind
    have hholds : TestHolds o (.int i) (.int j) ↔ cmpHolds o i j = true := by
      unfold TestHolds
      split
      · exact absurd rfl heq
      · exact absurd rfl hne
      · simp
    simp only [cmpRel, hvar, exists_eq_left, hholds]
    simp [coerceCmpInt, Value.coerceInt]
  rcases happlies.2 with hop | hop | hint
  · obtain rfl : op = .eq := hop
    simp only [testAtom, atomRel, eqRel, termRel, hvar, exists_and_left, exists_eq_left,
      EqHolds, hv, Option.some.injEq, exists_eq_left', TestHolds]
  · obtain rfl : op = .ne := hop
    simp [testAtom, atomRel, neRel, termRel, hvar, TestHolds, hv]
  · simp only [hv, Option.some.injEq, exists_eq_left']
    cases op with
    | eq =>
      simp only [testAtom, atomRel, eqRel, termRel, hvar, exists_and_left, exists_eq_left,
        EqHolds, TestHolds]
    | ne => simp [testAtom, atomRel, neRel, termRel, hvar, TestHolds]
    | gt | ge | lt | le => exact hord _ hint (by rintro ⟨⟩) (by rintro ⟨⟩)

theorem exists_chain_tests {V : Scope} {σ : Binding} (hV : OfKinds kind V σ) :
    ∀ {ts : List FlatTest}, (∀ t ∈ ts, t.var ∈ V ∧ t.Applies kind) →
      ((∃ c, chain (itemRels ctx (ts.map testAtom)) V σ c) ↔
        ∀ t ∈ ts, ∃ v, σ t.var = some v ∧ TestHolds t.op v t.value) := by
  intro ts
  induction ts with
  | nil =>
    intro _
    simp [itemRels, chain]
  | cons t ts ih =>
    intro h
    rw [List.forall_mem_cons] at h
    rw [List.map_cons, itemRels, exists_chain_cons, update_test h.1.1, ih h.2,
      exists_testRel_iff h.1.1 h.1.2 hV, List.forall_mem_cons]

/-- The atoms of a clause, one after the other, say what the clause says. -/
theorem exists_chain_iff {σ : Binding} {ts : List FlatTest} :
    ∀ {rs : List (String × List String)} {V : Scope}, RowsFit ctx kind V rs → OfKinds kind V σ →
      (∀ t ∈ ts, t.var ∈ V ∪ (rs.flatMap Prod.snd).toFinset ∧ t.Applies kind) →
      ((∃ c, chain (itemRels ctx (rs.map rowAtom ++ ts.map testAtom)) V σ c) ↔
        (∀ r ∈ rs, RowHolds ctx r σ) ∧
          ∀ t ∈ ts, ∃ v, σ t.var = some v ∧ TestHolds t.op v t.value) := by
  intro rs
  induction rs with
  | nil =>
    intro V _ hV ht
    rw [List.map_nil, List.nil_append, exists_chain_tests hV (by simpa using ht)]
    simp
  | cons r rs ih =>
    intro V hfit hV ht
    rw [List.map_cons, List.cons_append, itemRels, exists_chain_cons, update_row,
      exists_rowRel_iff hfit.1 hV, List.forall_mem_cons, and_assoc]
    apply and_congr_right
    intro hr
    apply ih hfit.2 (ofKinds_of_rowHolds hfit.1 hV hr)
    rwa [List.flatMap_cons, List.toFinset_append, ← Finset.union_assoc] at ht

theorem FlatClause.Runs.satisfies_iff (h : q.Runs ctx kind) {σ : Binding} :
    Satisfies ctx q.atoms σ ↔ q.Solves ctx σ := by
  have hV : OfKinds kind ∅ σ := by
    intro x hx
    cases hx
  have hchain := @exists_chain_iff ctx kind σ q.tests q.rows ∅ h.fit hV (by
    intro t ht
    rw [Finset.empty_union]
    exact h.tests t ht)
  have hiff : Satisfies ctx q.atoms σ ↔ Extends ∅ .empty q.vars σ ∧
      ∃ c, chain (itemRels ctx q.atoms) ∅ σ c := by
    unfold Satisfies
    simp only [matches_iff, h.plan, Except.ok.injEq, exists_eq_left', h.scope]
    rw [exists_and_left]
  rw [hiff, show q.atoms = q.rows.map rowAtom ++ q.tests.map testAtom from rfl, hchain]
  constructor
  · intro hs
    obtain ⟨hext, hrows, htests⟩ := hs
    exact ⟨hext.2, hrows, htests⟩
  · intro hs
    exact ⟨⟨fun x hx => (Finset.notMem_empty x hx).elim, hs.domain⟩, hs.rows, hs.tests⟩

theorem FlatClause.Runs.ofKinds (h : q.Runs ctx kind) {σ : Binding} (hσ : q.Solves ctx σ) :
    OfKinds kind q.vars σ := by
  have hV : OfKinds kind ∅ σ := by
    intro x hx
    cases hx
  have := ofKinds_of_rows h.fit hV hσ.rows
  rwa [Finset.empty_union] at this

/-- Two solutions that are equal as Python compares them are the same. -/
theorem FlatClause.Runs.eq_of_eqv (h : q.Runs ctx kind) {σ τ : Binding} (hσ : q.Solves ctx σ)
    (hτ : q.Solves ctx τ) (heq : Binding.Eqv σ τ) : σ = τ := by
  funext x
  by_cases hx : x ∈ q.vars
  · obtain ⟨v, hv, hkv⟩ := h.ofKinds hσ x hx
    obtain ⟨w, hw, hkw⟩ := h.ofKinds hτ x hx
    have hvw := heq x
    rw [hv, hw, Option.map_some, Option.map_some, Option.some.injEq] at hvw
    rw [hv, hw, hkv.eq_of_eqv (.inr hkw) (Value.eqv_iff.mpr hvw)]
  · have hσx : σ x = none := by
      have := mt (hσ.domain x).mpr hx
      simpa using this
    have hτx : τ x = none := by
      have := mt (hτ.domain x).mpr hx
      simpa using this
    rw [hσx, hτx]

/-! ## Evaluation -/

theorem runPlanned_append {as bs : Items} {envs es : List Env} (h : runPlanned as envs = .ok es)
    (hne : es ≠ []) : runPlanned (as ++ bs) envs = runPlanned bs es := by
  induction as generalizing envs with
  | nil =>
    cases h
    rfl
  | cons a as ih =>
    unfold runPlanned at h
    obtain ⟨envs', henvs', h⟩ := bind_ok_iff.mp h
    rw [List.cons_append, runPlanned, henvs', ok_bind]
    split at h
    next hempty =>
      cases h
      exact absurd rfl hne
    next hempty =>
      rw [if_neg hempty]
      exact ih h

theorem runPlanned_append_nil {as bs : Items} {envs : List Env} (h : runPlanned as envs = .ok [])
    (hne : envs ≠ []) : runPlanned (as ++ bs) envs = .ok [] := by
  induction as generalizing envs with
  | nil =>
    cases h
    exact absurd rfl hne
  | cons a as ih =>
    unfold runPlanned at h
    obtain ⟨envs', henvs', h⟩ := bind_ok_iff.mp h
    rw [List.cons_append, runPlanned, henvs', ok_bind]
    split at h
    next hempty => rw [if_pos hempty]
    next hempty =>
      rw [if_neg hempty]
      exact ih h fun hnil => hempty (by rw [hnil]; rfl)

theorem exists_run_rows {rs : List (String × List String)} {V : Scope} (h : RowsFit ctx kind V rs)
    (envs : List Env) : ∃ es, runPlanned (evalItems ctx (rs.map rowAtom)) envs = .ok es := by
  induction rs generalizing V envs with
  | nil => exact ⟨envs, rfl⟩
  | cons r rs ih =>
    obtain ⟨⟨facts, hfacts, hall⟩, hrest⟩ := h
    have hpred := (@evalPred_ok_iff ctx.viewFacts r.1 (r.2.map .var) envs _).mpr
      ⟨facts, hfacts, fun fact hfact => by rw [List.length_map]; exact (hall fact hfact).1, rfl⟩
    rw [List.map_cons, evalItems, runPlanned, show evalAtom ctx (rowAtom r) envs = .ok _ from hpred,
      ok_bind]
    split
    next => exact ⟨[], rfl⟩
    next => exact ih hrest _

/-- A loop each of whose steps keeps or drops its item. -/
theorem exists_collect_of_kept {f : Env → Except Err (List Env)} {envs : List Env}
    (h : ∀ e ∈ envs, ∃ keep : Bool, f e = .ok (if keep then [e] else [])) :
    ∃ out, collect f envs = .ok out ∧ ∀ e ∈ out, e ∈ envs := by
  induction envs with
  | nil => exact ⟨[], rfl, by simp⟩
  | cons e envs ih =>
    rw [List.forall_mem_cons] at h
    obtain ⟨keep, hkeep⟩ := h.1
    obtain ⟨out, hout, hsub⟩ := ih h.2
    refine ⟨(if keep then [e] else []) ++ out, ?_, ?_⟩
    · rw [collect, hkeep, ok_bind, hout, ok_bind]
    · intro e' he'
      rcases List.mem_append.mp he' with he' | he'
      · cases keep with
        | true => exact List.mem_cons.mpr (.inl (List.mem_singleton.mp he'))
        | false => cases he'
      · exact List.mem_cons_of_mem _ (hsub e' he')

theorem exists_run_test {t : FlatTest} {envs : List Env} (happlies : t.Applies kind)
    (h : ∀ e ∈ envs, ∃ v, Dict.get? e t.var = some v ∧ (kind t.var).Holds v) :
    ∃ out, evalAtom ctx (testAtom t) envs = .ok out ∧ ∀ e ∈ out, e ∈ envs := by
  obtain ⟨op, x, w⟩ := t
  have hord : ∀ o : CmpOp, kind x = .int ∧ (∃ i, w = .int i) →
      ∃ out, evalCmpAtom ctx.astGateOn o (.var x, resolveEvalTerm ctx (.var x))
        (.const w, resolveEvalTerm ctx (.const w)) envs = .ok out ∧ ∀ e ∈ out, e ∈ envs := by
    intro o hint
    obtain ⟨hk, j, rfl⟩ := hint
    apply exists_collect_of_kept
    intro e he
    obtain ⟨v, hv, hkind⟩ := h e he
    dsimp only at hv hkind
    rw [hk] at hkind
    obtain ⟨i, rfl⟩ := hkind
    refine ⟨cmpHolds o i j, ?_⟩
    simp [resolveSides, resolveEvalTerm, resolveVar, hv, sideValues, coerceCmpInt, Value.coerceInt]
  have heq : ∃ out, evalEqAtom ctx.astGateOn (.var x, resolveEvalTerm ctx (.var x))
      (.const w, resolveEvalTerm ctx (.const w)) envs = .ok out ∧ ∀ e ∈ out, e ∈ envs := by
    apply exists_collect_of_kept
    intro e he
    obtain ⟨v, hv, _⟩ := h e he
    dsimp only at hv
    refine ⟨v.eqv w, ?_⟩
    simp [resolveEvalTerm, resolveVar, hv, eqOutcome]
  have hne : ∃ out, evalNeAtom ctx.astGateOn (.var x, resolveEvalTerm ctx (.var x))
      (.const w, resolveEvalTerm ctx (.const w)) envs = .ok out ∧ ∀ e ∈ out, e ∈ envs := by
    apply exists_collect_of_kept
    intro e he
    obtain ⟨v, hv, _⟩ := h e he
    dsimp only at hv
    refine ⟨!v.eqv w, ?_⟩
    simp only [resolveSides, resolveEvalTerm, resolveVar, hv, sideValues, ok_bind]
    cases v.eqv w <;> rfl
  cases op with
  | eq => exact heq
  | ne => exact hne
  | gt | ge | lt | le =>
    apply hord
    rcases happlies.2 with hop | hop | hint
    · cases hop
    · cases hop
    · exact hint

theorem exists_run_tests {ts : List FlatTest} : ∀ {envs : List Env},
    (∀ t ∈ ts, t.Applies kind ∧
      ∀ e ∈ envs, ∃ v, Dict.get? e t.var = some v ∧ (kind t.var).Holds v) →
      ∃ es, runPlanned (evalItems ctx (ts.map testAtom)) envs = .ok es := by
  induction ts with
  | nil => exact fun _ => ⟨_, rfl⟩
  | cons t ts ih =>
    intro envs h
    rw [List.forall_mem_cons] at h
    obtain ⟨out, hout, hsub⟩ := @exists_run_test ctx kind t envs h.1.1 h.1.2
    rw [List.map_cons, evalItems, runPlanned, hout, ok_bind]
    split
    next => exact ⟨[], rfl⟩
    next =>
      apply ih
      intro t' ht'
      exact ⟨(h.2 t' ht').1, fun e he => (h.2 t' ht').2 e (hsub e he)⟩

/-- The clause without its comparisons. -/
def FlatClause.untested (q : FlatClause) : FlatClause := ⟨q.rows, []⟩

theorem FlatClause.Runs.untested (h : q.Runs ctx kind) : q.untested.Runs ctx kind where
  nonempty := h.nonempty
  named := h.named
  fit := h.fit
  tests := nofun
  cells := h.cells

theorem evalItems_append (as bs : List Atom) :
    evalItems ctx (as ++ bs) = evalItems ctx as ++ evalItems ctx bs := by
  rw [evalItems_map, evalItems_map, evalItems_map, List.map_append]

theorem evalBody_eq_run (h : q.Runs ctx kind) (envs : List Env) :
    evalBody ctx q.atoms envs = runPlanned (evalItems ctx q.atoms) envs := by
  unfold evalBody runBody
  rw [show planBodyAtoms ctx.astGateOn Prod.fst (boundVars envs) (evalItems ctx q.atoms) =
    .ok (evalItems ctx q.atoms) from ?_, ok_bind]
  rw [evalItems_map]
  exact (plan_items _ _ _ _).mpr ⟨_, h.plan _ _, rfl⟩

theorem FlatClause.Runs.evaluate (h : q.Runs ctx kind) :
    ∃ es, evalBody ctx q.atoms [[]] = .ok es := by
  obtain ⟨es, hes⟩ := exists_run_rows h.fit [[]]
  have hsplit : evalItems ctx q.atoms = evalItems ctx (q.rows.map rowAtom) ++
      evalItems ctx (q.tests.map testAtom) := evalItems_append _ _
  rw [evalBody_eq_run h, hsplit]
  by_cases hnil : es = []
  · rw [hnil] at hes
    exact ⟨[], runPlanned_append_nil hes (by simp)⟩
  rw [runPlanned_append hes hnil]
  apply @exists_run_tests ctx kind
  intro t ht
  refine ⟨(h.tests t ht).2, ?_⟩
  intro e he
  -- the environments before the comparisons solve the clause without them
  have hbody : evalBody ctx q.untested.atoms [[]] = .ok es := by
    rw [evalBody_eq_run h.untested]
    show runPlanned (evalItems ctx (q.rows.map rowAtom ++ [])) [[]] = .ok es
    rwa [List.append_nil]
  have hbranches : evalBranchBindings ctx (.and q.untested.atoms) = .ok es := by
    show collect _ [q.untested.atoms] = _
    rw [collect_singleton]
    exact hbody
  obtain ⟨b, hb, hsat⟩ := ((mem_evalBranchBindings h.cells hbranches).2 e.binding).mp
    (List.mem_map_of_mem he)
  obtain rfl := List.mem_singleton.mp hb
  exact h.untested.ofKinds (h.untested.satisfies_iff.mp hsat) t.var (h.tests t ht).1

/-! ## Sorting -/

theorem pairwise_bindingKey {e : Env} (he : (Dict.keys e).Nodup) :
    ((bindingKey e).map Prod.fst).Pairwise (· < ·) := by
  have := pairwise_seenKey he
  unfold seenKey at this
  rw [List.pairwise_map] at this ⊢
  exact this

theorem mem_bindingKey {e : Env} (he : (Dict.keys e).Nodup) {x : String} {v : Value} :
    (x, v) ∈ bindingKey e ↔ e.binding x = some v := by
  unfold bindingKey Env.binding
  rw [List.mem_insertionSort, Dict.get?_eq_some_iff he]

/-- Keys over the same variables, with values of their kinds, are ordered. -/
theorem keyLt?_isSome {ps qs : List (String × Value)} (hkeys : ps.map Prod.fst = qs.map Prod.fst)
    (hp : ∀ p ∈ ps, (kind p.1).Holds p.2) (hq : ∀ p ∈ qs, (kind p.1).Holds p.2) :
    (keyLt? ps qs).isSome = true := by
  induction ps generalizing qs with
  | nil =>
    cases qs with
    | nil => rfl
    | cons q qs => cases hkeys
  | cons p ps ih =>
    cases qs with
    | nil => cases hkeys
    | cons q qs =>
      rw [List.map_cons, List.map_cons, List.cons.injEq] at hkeys
      rw [List.forall_mem_cons] at hp hq
      unfold keyLt?
      rw [if_neg (not_not.mpr hkeys.1)]
      split
      next => exact ih hkeys.2 hp.2 hq.2
      next =>
        apply hp.1.lt?_isSome
        rw [hkeys.1]
        exact hq.1

theorem keys_eq_of_scope {e e' : Env} (he : (Dict.keys e).Nodup) (he' : (Dict.keys e').Nodup)
    (hscope : ∀ x, (e.binding x).isSome ↔ (e'.binding x).isSome) :
    (bindingKey e).map Prod.fst = (bindingKey e').map Prod.fst := by
  have hmem : ∀ {d : Env}, (Dict.keys d).Nodup → ∀ x,
      x ∈ (bindingKey d).map Prod.fst ↔ (d.binding x).isSome := by
    intro d hd x
    rw [List.mem_map, Option.isSome_iff_exists]
    constructor
    · intro h
      obtain ⟨⟨y, v⟩, hyv, rfl⟩ := h
      exact ⟨v, (mem_bindingKey hd).mp hyv⟩
    · intro h
      obtain ⟨v, hv⟩ := h
      exact ⟨(x, v), (mem_bindingKey hd).mpr hv, rfl⟩
  have hnodup : ∀ {d : Env}, (Dict.keys d).Nodup → ((bindingKey d).map Prod.fst).Nodup :=
    fun hd => (pairwise_bindingKey hd).imp fun hlt => ne_of_lt hlt
  have hperm : ((bindingKey e).map Prod.fst).Perm ((bindingKey e').map Prod.fst) := by
    rw [List.perm_ext_iff_of_nodup (hnodup he) (hnodup he')]
    intro x
    rw [hmem he, hmem he', hscope]
  exact hperm.eq_of_pairwise (fun x y _ _ hxy hyx => absurd hxy (lt_asymm hyx))
    (pairwise_bindingKey he) (pairwise_bindingKey he')

/-! ## The answer -/

/-- **A flat clause is answered**: the evaluation returns the bindings that solve the clause, each
once. -/
theorem FlatClause.Runs.answer (h : q.Runs ctx kind) :
    ∃ out, evaluateWhere ctx (.and q.atoms) = .ok out ∧
      (∀ σ, q.Solves ctx σ ↔ ∃ e ∈ out, e.binding = σ) ∧
      out.Pairwise fun e e' => e.binding ≠ e'.binding := by
  obtain ⟨es, hes⟩ := h.evaluate
  have hbranches : evalBranchBindings ctx (.and q.atoms) = .ok es := by
    show collect _ [q.atoms] = _
    rw [collect_singleton]
    exact hes
  obtain ⟨hnodup, hmem⟩ := mem_evalBranchBindings h.cells hbranches
  have hsolves : ∀ e ∈ dedupBindings es, q.Solves ctx e.binding := by
    intro e he
    obtain ⟨b, hb, hsat⟩ := (hmem e.binding).mp
      (List.mem_map_of_mem ((dedupBindings_spec es).1 e he))
    obtain rfl := List.mem_singleton.mp hb
    exact h.satisfies_iff.mp hsat
  have hkeys : ∀ e ∈ dedupBindings es, (Dict.keys e).Nodup :=
    fun e he => hnodup e ((dedupBindings_spec es).1 e he)
  -- cells of one variable are of one kind, so `sorted` can compare the bindings
  have hkinds : ∀ e ∈ dedupBindings es, ∀ p ∈ bindingKey e, (kind p.1).Holds p.2 := by
    intro e he p hp
    have hget : e.binding p.1 = some p.2 := (mem_bindingKey (hkeys e he)).mp hp
    have hx : p.1 ∈ q.vars := ((hsolves e he).domain p.1).mpr (by rw [hget]; rfl)
    obtain ⟨v, hv, hkind⟩ := h.ofKinds (hsolves e he) p.1 hx
    rw [hget] at hv
    cases hv
    exact hkind
  have hsort : ∃ out, sortBindings (dedupBindings es) = .ok out := by
    unfold sortBindings
    rw [if_pos]
    · exact ⟨_, rfl⟩
    · rw [List.all_eq_true]
      intro e he
      rw [List.all_eq_true]
      intro e' he'
      apply @keyLt?_isSome kind _ _ _ (hkinds e he) (hkinds e' he')
      apply keys_eq_of_scope (hkeys e he) (hkeys e' he')
      intro x
      rw [← (hsolves e he).domain, ← (hsolves e' he').domain]
  obtain ⟨out, hout⟩ := hsort
  have hrun : evaluateWhere ctx (.and q.atoms) = .ok out := by
    unfold evaluateWhere
    have hgate : whereAstGate ctx.astGateOn (.and q.atoms) = .ok () := by
      unfold whereAstGate
      split
      · rw [h.validate]
        rfl
      · rfl
    rw [hgate, ok_bind, h.normalize, ok_bind, hbranches, ok_bind, hout]
  -- up to here the clause returns; from here on, what
  have hanswers := answers_of_evaluateWhere h.cells hrun
  refine ⟨out, hrun, ?_, ?_⟩
  · intro σ
    constructor
    · intro hσ
      obtain ⟨e, he, heq⟩ := hanswers.complete q.atoms List.mem_cons_self σ
        (h.satisfies_iff.mpr hσ)
      have hmemE := (sortBindings_perm hout).mem_iff.mp he
      exact ⟨e, he, h.eq_of_eqv (hsolves e hmemE) hσ heq⟩
    · intro hσ
      obtain ⟨e, he, rfl⟩ := hσ
      exact hsolves e ((sortBindings_perm hout).mem_iff.mp he)
  · apply hanswers.distinct.imp
    intro e e' hne heq
    apply hne
    intro x
    rw [heq]

end FactGraph.Rules
