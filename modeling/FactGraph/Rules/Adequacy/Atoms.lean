import FactGraph.Rules.Runs

/-!
# The evaluator computes the meaning

Every map of the evaluator enumerates its relation: run on one environment, an atom returns the
extensions of the environment's binding that satisfy it, once for each choice of rows, in the
order of the rows (`Implements`); a term resolves to the one thing its relation allows
(`ImplementsTerm`). Both are conditional on the run returning: a run that raises says nothing.

This file has one lemma for each kind of atom, given its terms; the loop over a body and the
induction over the syntax come next.
-/

namespace FactGraph.Rules

open Check Enumeration

variable {ctx : EvalCtx}

/-! ## What is to be shown -/

/-- How many rows an atom chooses. -/
def Atom.width : Atom → Nat
  | .pred .. => 1
  | .ruleref .. | .cmp .. | .inn .. | .builtin .. | .not _ => 0

/-- A term that resolves, resolves to what its relation says and nothing else. -/
def ImplementsTerm (sem : TermSem) (rel : TermRel) : Prop :=
  ∀ e r, sem e = .ok r → ∀ r', rel e.scope e.binding r' ↔ r' = r

/-- Run on one environment, an atom enumerates the extensions of its binding that satisfy it. -/
def Implements (a : Atom) (sem : AtomSem) (rel : AtomRel) : Prop :=
  ∀ e out, sem [e] = .ok out → Enumerates a.width (out.map Env.binding)
    fun c σ => Extends e.scope e.binding (updateBoundVarsForPlan e.scope a) σ ∧ rel e.scope σ c

/-! ## Constraints

An atom that chooses no row returns at most one environment, the given one or an extension by
one variable. -/

/-- The atom keeps the environment or drops it. -/
theorem enumerates_keep {a : Atom} {rel : AtomRel} {e : Env} {out : List Env}
    (hscope : updateBoundVarsForPlan e.scope a = e.scope)
    (hc : ∀ σ c, rel e.scope σ c → c = [])
    (hout : out = [e] ∧ rel e.scope e.binding [] ∨ out = [] ∧ ¬ rel e.scope e.binding []) :
    Enumerates 0 (out.map Env.binding) fun c σ =>
      Extends e.scope e.binding (updateBoundVarsForPlan e.scope a) σ ∧ rel e.scope σ c := by
  have hself : Extends e.scope e.binding e.scope e.binding := Extends.refl fun x => Env.mem_scope
  refine enumerates_of_forall ?_ fun c σ => ?_
  · rcases hout with ⟨rfl, -⟩ | ⟨rfl, -⟩ <;> simp
  rw [hscope]
  constructor
  · rintro ⟨hext, hrel⟩
    obtain rfl := hc σ c hrel
    obtain rfl := hext.eq_of_same_scope fun x => Env.mem_scope
    rcases hout with ⟨rfl, -⟩ | ⟨-, hnot⟩
    · simp
    · exact absurd hrel hnot
  · rintro ⟨rfl, hσ⟩
    rcases hout with ⟨rfl, hrel⟩ | ⟨rfl, -⟩
    · obtain rfl : σ = e.binding := by simpa using hσ
      exact ⟨hself, hrel⟩
    · simp at hσ

/-- The atom binds one variable. -/
theorem enumerates_bind {a : Atom} {rel : AtomRel} {e : Env} {x : String} {v : Value}
    (hx : x ∉ e.scope) (hscope : updateBoundVarsForPlan e.scope a = insert x e.scope)
    (hc : ∀ σ c, rel e.scope σ c → c = [])
    (hrel : ∀ σ, Extends e.scope e.binding (insert x e.scope) σ →
      (rel e.scope σ [] ↔ σ x = some v)) :
    Enumerates 0 ([Dict.set e x v].map Env.binding) fun c σ =>
      Extends e.scope e.binding (updateBoundVarsForPlan e.scope a) σ ∧ rel e.scope σ c := by
  refine enumerates_of_forall (by simp) fun c σ => ?_
  rw [hscope, List.map_singleton, List.mem_singleton, Env.binding_set]
  constructor
  · rintro ⟨hext, h⟩
    obtain rfl := hc σ c h
    exact ⟨rfl, hext.eq_update (fun y => Env.mem_scope) ((hrel σ hext).mp h)⟩
  · rintro ⟨rfl, rfl⟩
    have hext : Extends e.scope e.binding (insert x e.scope)
        (Function.update e.binding x (some v)) := by
      rw [← Env.scope_set (v := v), ← Env.binding_set]
      refine ⟨fun y hy => ?_, fun y => Env.mem_scope⟩
      rw [Env.binding_set, Function.update_of_ne (by rintro rfl; exact hx hy)]
    exact ⟨hext, (hrel _ hext).mpr (Function.update_self ..)⟩

/-- The atom drops the environment. -/
theorem enumerates_drop {a : Atom} {rel : AtomRel} {e : Env}
    (hrel : ∀ σ c, Extends e.scope e.binding (updateBoundVarsForPlan e.scope a) σ →
      ¬ rel e.scope σ c) :
    Enumerates 0 (([] : List Env).map Env.binding) fun c σ =>
      Extends e.scope e.binding (updateBoundVarsForPlan e.scope a) σ ∧ rel e.scope σ c :=
  enumerates_nil fun c σ h => hrel σ c h.1 h.2

/-! ## Terms -/

theorem resolveVar_implements (x : String) :
    ImplementsTerm (fun e => .ok (resolveVar e x)) (varRel x) := by
  intro e r h r'
  rw [Except.ok.injEq] at h
  subst h
  simp only [varRel, resolveVar, Env.mem_scope, Env.binding]
  cases Dict.get? e x <;> simp

/-! ## Comparisons -/

/-- The two sides of a comparison, resolved in the environment, seen from an extension of it. -/
theorem termRel_of_extends {t : Term} (ht : ImplementsTerm (resolveEvalTerm ctx t) (termRel ctx t))
    {e : Env} {r : Resolved} (h : resolveEvalTerm ctx t e = .ok r) {W : Scope} {σ : Binding}
    (hext : Extends e.scope e.binding W σ) (r' : Resolved) :
    termRel ctx t e.scope σ r' ↔ r' = r := by
  rw [termRel_local ctx t e.scope σ e.binding r' hext.1, ht e r h]

/-- An `eq` keeps the environment, binds a variable in it or drops it, as its relation says. -/
theorem enumerates_eqOutcome {l r : Term} {e : Env} {lv rv : Resolved} {out : List Env}
    (hlv : resolveEvalTerm ctx l e = .ok lv) (hrv : resolveEvalTerm ctx r e = .ok rv)
    (h : eqOutcome ctx.astGateOn l r e lv rv = .ok out) {rel : AtomRel}
    (hrel : ∀ W σ, Extends e.scope e.binding W σ →
      ∀ c, rel e.scope σ c ↔ c = [] ∧ EqHolds l r σ lv rv)
    (hc : ∀ σ c, rel e.scope σ c → c = []) :
    Enumerates 0 (out.map Env.binding) fun c σ =>
      Extends e.scope e.binding (updateBoundVarsForPlan e.scope (.cmp .eq l r)) σ ∧
        rel e.scope σ c := by
  have hself : Extends e.scope e.binding e.scope e.binding := Extends.refl fun x => Env.mem_scope
  have drop : out = [] → (∀ σ, ¬ EqHolds l r σ lv rv) → Enumerates 0 (out.map Env.binding)
      fun c σ => Extends e.scope e.binding (updateBoundVarsForPlan e.scope (.cmp .eq l r)) σ ∧
        rel e.scope σ c := by
    rintro rfl hnot
    exact enumerates_drop fun σ c hext h => hnot σ ((hrel _ σ hext c).mp h).2
  cases lv with
  | noValue => exact drop (by simpa [eqOutcome, eq_comm] using h) (by simp [EqHolds])
  | unbound =>
    obtain ⟨x, rfl, hx⟩ := var_of_unbound hlv
    cases rv with
    | noValue => exact drop (by simpa [eqOutcome, eq_comm] using h) (by simp [EqHolds])
    | unbound =>
      refine drop ?_ (by simp [EqHolds])
      cases hgate : ctx.astGateOn <;> simp [eqOutcome, hgate] at h
      exact h
    | value w =>
      obtain rfl : [Dict.set e x w] = out := by simpa [eqOutcome, bindSide] using h
      refine enumerates_bind hx (update_eq_var_left hx (known_of_resolve hrv)) hc
        fun σ hext => ?_
      simp [hrel _ σ hext, EqHolds, Takes]
  | value v =>
    have hknown := known_of_resolve hlv
    cases rv with
    | noValue => exact drop (by simpa [eqOutcome, eq_comm] using h) (by simp [EqHolds])
    | unbound =>
      obtain ⟨x, rfl, hx⟩ := var_of_unbound hrv
      obtain rfl : [Dict.set e x v] = out := by simpa [eqOutcome, bindSide] using h
      refine enumerates_bind hx (update_eq_var_right hx hknown) hc fun σ hext => ?_
      simp [hrel _ σ hext, EqHolds, Takes]
    | value w =>
      obtain rfl : (if v.eqv w then [e] else []) = out := by simpa [eqOutcome] using h
      refine enumerates_keep (update_eq_of_known hknown (known_of_resolve hrv)) hc ?_
      rw [hrel _ _ hself]
      by_cases hvw : v.eqv w = true <;> simp [hvw, EqHolds]

theorem evalEq_implements {l r : Term}
    (hl : ImplementsTerm (resolveEvalTerm ctx l) (termRel ctx l))
    (hr : ImplementsTerm (resolveEvalTerm ctx r) (termRel ctx r)) :
    Implements (.cmp .eq l r) (evalAtom ctx (.cmp .eq l r)) (atomRel ctx (.cmp .eq l r)) := by
  intro e out h
  simp only [evalAtom, evalEqAtom, collect_singleton, bind_ok_iff] at h
  obtain ⟨lv, hlv, rv, hrv, h⟩ := h
  refine enumerates_eqOutcome hlv hrv h (fun W σ hext c => ?_) fun σ c h => h.1
  simp only [atomRel, eqRel, termRel_of_extends hl hlv hext, termRel_of_extends hr hrv hext,
    exists_and_left, exists_eq_left]

/-- The two values a filter compares, or none. -/
theorem sides_of_resolve {kind : String} {l r : Term}
    (hl : ImplementsTerm (resolveEvalTerm ctx l) (termRel ctx l))
    (hr : ImplementsTerm (resolveEvalTerm ctx r) (termRel ctx r)) {e : Env}
    {sides : Option (Value × Value)}
    (h : resolveSides ctx.astGateOn kind (l, resolveEvalTerm ctx l) (r, resolveEvalTerm ctx r) e =
      .ok sides) (v w : Value) :
    (termRel ctx l e.scope e.binding (.value v) ∧ termRel ctx r e.scope e.binding (.value w)) ↔
      sides = some (v, w) := by
  simp only [resolveSides, bind_ok_iff] at h
  obtain ⟨lv, hlv, rv, hrv, h⟩ := h
  rw [hl e lv hlv, hr e rv hrv]
  cases lv <;> cases rv <;> cases hgate : ctx.astGateOn <;>
    simp [sideValues, unboundSide, hgate] at h <;> simp [← h, eq_comm]

/-- A filter keeps an environment or drops it. -/
theorem enumerates_filter {a : Atom} {rel : AtomRel} {e : Env} {keep : Bool}
    (hscope : updateBoundVarsForPlan e.scope a = e.scope)
    (hc : ∀ σ c, rel e.scope σ c → c = [])
    (hrel : rel e.scope e.binding [] ↔ keep = true) :
    Enumerates 0 ((if keep then [e] else []).map Env.binding) fun c σ =>
      Extends e.scope e.binding (updateBoundVarsForPlan e.scope a) σ ∧ rel e.scope σ c := by
  refine enumerates_keep hscope hc ?_
  cases keep with
  | true => exact Or.inl ⟨rfl, hrel.mpr rfl⟩
  | false => exact Or.inr ⟨rfl, fun h => Bool.noConfusion (hrel.mp h)⟩

theorem evalNe_implements {l r : Term}
    (hl : ImplementsTerm (resolveEvalTerm ctx l) (termRel ctx l))
    (hr : ImplementsTerm (resolveEvalTerm ctx r) (termRel ctx r)) :
    Implements (.cmp .ne l r) (evalAtom ctx (.cmp .ne l r)) (atomRel ctx (.cmp .ne l r)) := by
  intro e out h
  obtain ⟨sides, hsides, rfl⟩ := evalNe_ok_iff h
  have hboth := sides_of_resolve hl hr hsides
  refine enumerates_filter (by simp [updateBoundVarsForPlan, newlyBound])
    (fun σ c h => h.1) ?_
  simp only [atomRel, neRel, true_and, ← and_assoc, hboth]
  simp [Option.any_eq_true]

/-- `gt`, `ge`, `lt` and `le` differ in the comparison alone. -/
theorem evalCmp_implements {op : CmpOp} {l r : Term} {a : Atom}
    (ha : ∀ V, updateBoundVarsForPlan V a = V) (hwidth : a.width = 0)
    (hl : ImplementsTerm (resolveEvalTerm ctx l) (termRel ctx l))
    (hr : ImplementsTerm (resolveEvalTerm ctx r) (termRel ctx r)) :
    Implements a
      (evalCmpAtom ctx.astGateOn op (l, resolveEvalTerm ctx l) (r, resolveEvalTerm ctx r))
      (cmpRel op (l, termRel ctx l) (r, termRel ctx r)) := by
  intro e out h
  simp only [evalCmpAtom, collect_singleton, bind_ok_iff] at h
  obtain ⟨sides, hsides, h⟩ := h
  have hboth := sides_of_resolve hl hr hsides
  rw [hwidth]
  cases sides with
  | none =>
    obtain rfl : out = [] := by simpa [eq_comm] using h
    refine enumerates_keep (ha _) (fun σ c h => h.1) (Or.inr ⟨rfl, ?_⟩)
    rintro ⟨-, v, w, i, j, hv, hw, -⟩
    exact absurd ((hboth v w).mp ⟨hv, hw⟩) (by simp)
  | some p =>
    obtain ⟨v, w⟩ := p
    simp only [bind_ok_iff, Except.ok.injEq] at h
    obtain ⟨i, hi, j, hj, rfl⟩ := h
    refine enumerates_filter (ha _) (fun σ c h => h.1) ?_
    constructor
    · rintro ⟨-, v', w', i', j', hv, hw, hi', hj', hkeep⟩
      have heq := (hboth v' w').mp ⟨hv, hw⟩
      rw [Option.some.injEq, Prod.mk.injEq] at heq
      obtain ⟨rfl, rfl⟩ := heq
      rw [hi, Except.ok.injEq] at hi'
      rw [hj, Except.ok.injEq] at hj'
      rwa [hi', hj']
    · intro hkeep
      obtain ⟨hv, hw⟩ := (hboth v w).mpr rfl
      exact ⟨rfl, v, w, i, j, hv, hw, hi, hj, hkeep⟩

/-! ## Predicates, `in` and arithmetic -/

theorem evalPred_implements (hnone : NoNoneCells ctx.viewFacts) (p : String) (terms : List Term) :
    Implements (.pred p terms) (evalAtom ctx (.pred p terms)) (atomRel ctx (.pred p terms)) := by
  intro e out h
  obtain ⟨facts, hp, hlen, rfl⟩ := evalPred_ok_iff.mp h
  rw [List.flatMap_singleton]
  exact enumerates_pred hnone hp hlen e

theorem evalIn_implements (x : String) (values : List Value) :
    Implements (.inn x values) (evalAtom ctx (.inn x values)) (atomRel ctx (.inn x values)) := by
  intro e out h
  rw [evalIn_ok h]
  refine enumerates_filter (by simp [updateBoundVarsForPlan, newlyBound])
    (fun σ c h => h.1) ?_
  simp only [atomRel, inRel, true_and, Env.mem_scope, Env.binding, Option.any_eq_true,
    List.any_eq_true]
  cases Dict.get? e x <;> simp

theorem operand_of_resolve {op : BuiltinOp} {x : Term}
    (hx : ImplementsTerm (resolveEvalTerm ctx x) (termRel ctx x)) {e : Env} {i : Option Int}
    (h : requireResolvedArith ctx.astGateOn op.name (x, resolveEvalTerm ctx x) e = .ok i)
    (j : Int) : Operand op (x, termRel ctx x) e.scope e.binding j ↔ i = some j := by
  simp only [requireResolvedArith, bind_ok_iff] at h
  obtain ⟨r, hr, h⟩ := h
  simp only [Operand, hx e r hr]
  cases r with
  | noValue =>
    obtain rfl : i = none := by simpa [eq_comm] using h
    simp
  | unbound =>
    obtain rfl : i = none := by
      cases hgate : ctx.astGateOn <;> simp [hgate] at h
      exact h.symm
    simp
  | value v =>
    simp only [bind_ok_iff, Except.ok.injEq] at h
    obtain ⟨k, hk, rfl⟩ := h
    have hk' : coerceArithInt op.name v = .ok k := hk
    simp [hk', eq_comm]

theorem termRels_map (ctx : EvalCtx) (ts : List Term) :
    termRels ctx ts = ts.map fun t => (t, termRel ctx t) := by
  induction ts with
  | nil => rfl
  | cons t ts ih => rw [termRels, List.map_cons, ih]

/-- The result of an arithmetic atom is the one its relation allows. -/
theorem arithValue_of_result {op : BuiltinOp} {args : List Term}
    (hargs : ∀ t ∈ args, ImplementsTerm (resolveEvalTerm ctx t) (termRel ctx t)) {e : Env}
    {result : Option Int}
    (h : arithResult ctx.astGateOn op (resolveEvalTerms ctx args) e = .ok result) (j : Int) :
    ArithValue op (termRels ctx args) e.scope e.binding j ↔ result = some j := by
  rw [resolveEvalTerms_map] at h
  rw [termRels_map]
  match args with
  | [] | [_] | _ :: _ :: _ :: _ :: _ => cases op <;> simp [arithResult] at h
  | [z, x] =>
    cases op with
    | add | sub | addc | mulc => simp [arithResult] at h
    | neg =>
      simp only [List.map_cons, List.map_nil, arithResult, bind_ok_iff] at h
      obtain ⟨i, hi, h⟩ := h
      have hx := operand_of_resolve (hargs x (by simp)) hi
      simp only [List.map_cons, List.map_nil, ArithValue, hx]
      cases i with
      | none => simp at h; simp [← h]
      | some i => simp at h; simp [← h, eq_comm]
  | [z, x, y] =>
    cases op with
    | neg => simp [arithResult] at h
    | add | sub =>
      simp only [List.map_cons, List.map_nil, arithResult, bind_ok_iff] at h
      obtain ⟨i, hi, h⟩ := h
      have hx := operand_of_resolve (hargs x (by simp)) hi
      simp only [List.map_cons, List.map_nil, ArithValue, hx]
      cases i with
      | none => simp at h; simp [← h]
      | some i =>
        simp only [bind_ok_iff] at h
        obtain ⟨k, hk, h⟩ := h
        have hy := operand_of_resolve (hargs y (by simp)) hk
        simp only [hy]
        cases k with
        | none => simp at h; simp [← h]
        | some k => simp at h; simp [← h, eq_comm]
    | addc | mulc =>
      simp only [List.map_cons, List.map_nil, arithResult, bind_ok_iff] at h
      obtain ⟨i, hi, h⟩ := h
      have hx := operand_of_resolve (hargs x (by simp)) hi
      simp only [List.map_cons, List.map_nil, ArithValue, hx]
      cases i with
      | none => simp at h; simp [← h]
      | some i =>
        simp only [bind_ok_iff, Except.ok.injEq] at h
        obtain ⟨k, hk, rfl⟩ := h
        simp [hk, eq_comm]

theorem arithValue_extends {op : BuiltinOp} {args : List Term} {e : Env} {W : Scope}
    {σ : Binding} (hext : Extends e.scope e.binding W σ) (j : Int) :
    ArithValue op (termRels ctx args) e.scope σ j ↔
      ArithValue op (termRels ctx args) e.scope e.binding j :=
  arithValue_local (fun x hx => by rw [mem_termRels hx]; exact termRel_local ctx x.1) hext.1

theorem evalArith_implements {op : BuiltinOp} {args : List Term}
    (hargs : ∀ t ∈ args, ImplementsTerm (resolveEvalTerm ctx t) (termRel ctx t)) :
    Implements (.builtin op args) (evalAtom ctx (.builtin op args))
      (atomRel ctx (.builtin op args)) := by
  intro e out h
  simp only [evalAtom, evalArithAtom, collect_singleton, bind_ok_iff] at h
  obtain ⟨result, hresult, h⟩ := h
  have hvalue := arithValue_of_result hargs hresult
  have hc : ∀ σ c, arithRel op (termRels ctx args) e.scope σ c → c = [] := fun σ c h => h.1
  -- the relation, once the result is known
  have hrel : ∀ W σ, Extends e.scope e.binding W σ → ∀ c,
      arithRel op (termRels ctx args) e.scope σ c ↔
        c = [] ∧ ∃ i, result = some i ∧ ∃ z, args.head? = some z ∧
          OutputIs op z e.scope σ i := by
    intro W σ hext c
    simp only [arithRel, map_fst_termRels, arithValue_extends hext, hvalue]
  cases result with
  | none =>
    obtain rfl : out = [] := by simpa [eq_comm] using h
    exact enumerates_drop fun σ c hext h => by simpa using ((hrel _ σ hext c).mp h).2
  | some i =>
    cases args with
    | nil =>
      obtain rfl : out = [] := by simpa [resolveEvalTerms, eq_comm] using h
      exact enumerates_drop fun σ c hext h => by simpa using ((hrel _ σ hext c).mp h).2
    | cons z ts =>
      simp only [resolveEvalTerms] at h
      simp only [List.head?_cons, Option.some.injEq, exists_eq_left'] at hrel
      cases z with
      | const _ | agg _ _ _ =>
        obtain rfl : out = [] := by simpa [bindOrCheckResult, eq_comm] using h
        exact enumerates_drop fun σ c hext h => ((hrel _ σ hext c).mp h).2
      | var x =>
        simp only [bindOrCheckResult] at h
        cases hx : Dict.get? e x with
        | none =>
          have hxV : x ∉ e.scope := Env.notMem_scope.mpr hx
          obtain rfl : out = [Dict.set e x (.int i)] := by simpa [hx, eq_comm] using h
          refine enumerates_bind hxV update_arith_var hc fun σ hext => ?_
          simp [atomRel, hrel _ σ hext, OutputIs, hxV]
        | some v =>
          have hxV : x ∈ e.scope := Env.mem_scope.mpr (by simp [Env.binding, hx])
          simp only [hx, bind_ok_iff, Except.ok.injEq] at h
          obtain ⟨k, hk, rfl⟩ := h
          have hupdate : updateBoundVarsForPlan e.scope (.builtin op (.var x :: ts)) =
              e.scope := update_arith_var.trans (Finset.insert_eq_of_mem hxV)
          have hself : Extends e.scope e.binding e.scope e.binding :=
            Extends.refl fun x => Env.mem_scope
          refine enumerates_keep hupdate hc ?_
          simp only [atomRel]
          rw [hrel _ _ hself]
          have hbind : e.binding x = some v := hx
          by_cases hki : k = i <;> simp [OutputIs, hxV, hbind, hk, hki]

end FactGraph.Rules
