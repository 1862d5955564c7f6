import FactGraph.Rules.Index

/-!
# What a run does to environments

Facts about runs that need no induction on the clause. An atom treats the environments it is
given one by one; each environment it returns binds the variables of the one it came from and
those the planner counts as newly bound, whatever the rows are. So every environment at one point
of a body has one domain, and the planner knows it: it is a scope.
-/

namespace FactGraph.Rules

open Check

variable {ctx : EvalCtx}

/-! ## Terms -/

theorem aggregateValues_ne_unbound {floats : FloatOps} {kind : AggKind} {values : List Value} :
    aggregateValues floats kind values ≠ .ok .unbound := by
  intro h
  cases kind with
  | count => simp [aggregateValues] at h
  | sum =>
    simp only [aggregateValues] at h
    split at h
    · simp [bind_ok_iff] at h
    · simp at h
  | mean =>
    simp only [aggregateValues] at h
    split at h
    · simp [bind_ok_iff] at h
    · simp at h
  | min | max =>
    simp only [aggregateValues, Except.ok.injEq] at h
    revert h
    generalize extremum _ values = best
    cases best <;> simp

/-- Only a variable can be unbound. -/
theorem var_of_unbound {t : Term} {e : Env} (h : resolveEvalTerm ctx t e = .ok .unbound) :
    ∃ x, t = .var x ∧ x ∉ e.scope := by
  cases t with
  | var x =>
    refine ⟨x, rfl, Env.notMem_scope.mpr ?_⟩
    simp only [resolveEvalTerm, resolveVar, Except.ok.injEq] at h
    cases hx : Dict.get? e x with
    | none => rfl
    | some v => rw [hx] at h; cases h
  | const v => simp [resolveEvalTerm] at h
  | agg kind target filter =>
    simp only [resolveEvalTerm, resolveAggregate, bind_ok_iff] at h
    obtain ⟨matched, -, h⟩ := h
    split at h
    · simp at h
    split at h
    · split at h <;> simp at h
    · rw [bind_ok_iff] at h
      obtain ⟨values, -, h⟩ := h
      cases values with
      | none => simp at h
      | some values => exact absurd h aggregateValues_ne_unbound

/-- A term that has a value is known to the planner. -/
theorem known_of_resolve {t : Term} {e : Env} {v : Value}
    (h : resolveEvalTerm ctx t e = .ok (.value v)) : termKnownForPlan e.scope t = true := by
  cases t with
  | var x =>
    simp only [resolveEvalTerm, resolveVar, Except.ok.injEq] at h
    cases hx : Dict.get? e x with
    | none => rw [hx] at h; cases h
    | some w => simp [termKnownForPlan, Env.mem_scope, Env.binding, hx]
  | const _ | agg _ _ _ => rfl

/-! ## One environment -/

/-- What an atom that reads no rows does to an environment: drop it, keep it, or bind a variable
in it. -/
inductive Outcome (a : Atom) (e : Env) : List Env → Prop
  | drop : Outcome a e []
  | keep : updateBoundVarsForPlan e.scope a = e.scope → Outcome a e [e]
  | bind (x : String) (v : Value) : x ∉ e.scope →
      updateBoundVarsForPlan e.scope a = insert x e.scope → Outcome a e [Dict.set e x v]

/-- The environments an atom makes of one: their domain, and that they bind each variable once. -/
def Grows (a : Atom) (e : Env) (out : List Env) : Prop :=
  ∀ e' ∈ out, e'.scope = updateBoundVarsForPlan e.scope a ∧
    ((Dict.keys e).Nodup → (Dict.keys e').Nodup)

theorem Outcome.grows {a : Atom} {e : Env} {out : List Env} (h : Outcome a e out) :
    Grows a e out := by
  cases h with
  | drop => simp [Grows]
  | keep hscope => simp [Grows, hscope]
  | bind x v _ hscope =>
    simp only [Grows, List.forall_mem_singleton, hscope, Env.scope_set, true_and]
    exact fun he => Dict.nodup_keys_set he x v

theorem eqOutcome_outcome {l r : Term} {e : Env} {lv rv : Resolved} {out : List Env}
    (hlv : resolveEvalTerm ctx l e = .ok lv) (hrv : resolveEvalTerm ctx r e = .ok rv)
    (h : eqOutcome ctx.astGateOn l r e lv rv = .ok out) : Outcome (.cmp .eq l r) e out := by
  have drop : out = [] → Outcome (.cmp .eq l r) e out := by
    rintro rfl
    exact .drop
  cases lv with
  | noValue => exact drop (by simpa [eqOutcome, eq_comm] using h)
  | unbound =>
    obtain ⟨x, rfl, hx⟩ := var_of_unbound hlv
    cases rv with
    | noValue => exact drop (by simpa [eqOutcome, eq_comm] using h)
    | unbound =>
      cases hgate : ctx.astGateOn <;> simp [eqOutcome, hgate] at h
      exact drop h
    | value w =>
      obtain rfl : [Dict.set e x w] = out := by simpa [eqOutcome, bindSide] using h
      exact .bind x w hx (update_eq_var_left hx (known_of_resolve hrv))
  | value v =>
    cases rv with
    | noValue => exact drop (by simpa [eqOutcome, eq_comm] using h)
    | unbound =>
      obtain ⟨x, rfl, hx⟩ := var_of_unbound hrv
      obtain rfl : [Dict.set e x v] = out := by simpa [eqOutcome, bindSide] using h
      exact .bind x v hx (update_eq_var_right hx (known_of_resolve hlv))
    | value w =>
      obtain rfl : (if v.eqv w then [e] else []) = out := by simpa [eqOutcome] using h
      split
      · exact .keep (update_eq_of_known (known_of_resolve hlv) (known_of_resolve hrv))
      · exact .drop

theorem filter_outcome {a : Atom} {e : Env} {keep : Bool}
    (ha : updateBoundVarsForPlan e.scope a = e.scope) :
    Outcome a e (if keep then [e] else []) := by
  cases keep with
  | true => exact .keep ha
  | false => exact .drop

theorem update_arith_var {V : Scope} {op : BuiltinOp} {x : String} {ts : List Term} :
    updateBoundVarsForPlan V (.builtin op (.var x :: ts)) = insert x V := by
  rw [updateBoundVarsForPlan, newlyBound]
  exact Finset.union_comm V {x}

theorem bindOrCheckResult_outcome {op : BuiltinOp} {kind : String} {z : Term} {ts : List Term}
    {e : Env} {i : Int} {out : List Env} (h : bindOrCheckResult kind e z i = .ok out) :
    Outcome (.builtin op (z :: ts)) e out := by
  cases z with
  | const _ | agg _ _ _ =>
    obtain rfl : out = [] := by simpa [bindOrCheckResult, eq_comm] using h
    exact .drop
  | var x =>
    simp only [bindOrCheckResult] at h
    cases hx : Dict.get? e x with
    | none =>
      obtain rfl : out = [Dict.set e x (.int i)] := by simpa [hx, eq_comm] using h
      exact .bind x _ (Env.notMem_scope.mpr hx) update_arith_var
    | some v =>
      have hxV : x ∈ e.scope := Env.mem_scope.mpr (by simp [Env.binding, hx])
      simp only [hx, bind_ok_iff, Except.ok.injEq] at h
      obtain ⟨k, -, rfl⟩ := h
      split
      · exact .keep (update_arith_var.trans (Finset.insert_eq_of_mem hxV))
      · exact .drop

theorem grows_matchTerms {terms : List Term} {fact : Fact} {env env' : Env}
    (hlen : fact.length = terms.length) (h : matchTerms terms fact env = some env') :
    env'.scope = env.scope ∪ varTerms terms ∧
      ((Dict.keys env).Nodup → (Dict.keys env').Nodup) := by
  induction terms generalizing fact env with
  | nil =>
    simp only [matchTerms, Option.some.injEq] at h
    subst h
    simp [varTerms]
  | cons t ts ih =>
    cases fact with
    | nil => simp at hlen
    | cons cell cells =>
      simp only [List.length_cons, Nat.add_right_cancel_iff] at hlen
      cases t with
      | agg _ _ _ => simp [matchTerms] at h
      | const v =>
        simp only [matchTerms] at h
        split at h
        · exact ih hlen h
        · cases h
      | var x =>
        have bound : matchTerms ts cells (Dict.set env x cell) = some env' → _ := ih hlen
        have hset : env'.scope = Env.scope (Dict.set env x cell) ∪ varTerms ts ∧
            ((Dict.keys (Dict.set env x cell)).Nodup → (Dict.keys env').Nodup) →
            env'.scope = env.scope ∪ varTerms (.var x :: ts) ∧
              ((Dict.keys env).Nodup → (Dict.keys env').Nodup) := by
          rintro ⟨hscope, hnodup⟩
          refine ⟨?_, fun henv => hnodup (Dict.nodup_keys_set henv x cell)⟩
          rw [hscope, Env.scope_set, varTerms, Finset.insert_union, Finset.union_insert]
        simp only [matchTerms] at h
        split at h
        · exact hset (bound h)
        · exact hset (bound h)
        · next v _ hx =>
          split at h
          · obtain ⟨hscope, hnodup⟩ := ih hlen h
            have hxV : x ∈ env.scope := Env.mem_scope.mpr (by simp [Env.binding, hx])
            refine ⟨?_, hnodup⟩
            rw [hscope, varTerms, Finset.union_insert,
              Finset.insert_eq_of_mem (Finset.mem_union_left _ hxV)]
          · cases h

/-! ## Atoms -/

theorem evalNe_ok_iff {l r : Term × TermSem} {e : Env} {out : List Env}
    (h : evalNeAtom ctx.astGateOn l r [e] = .ok out) :
    ∃ sides, resolveSides ctx.astGateOn "ne" l r e = .ok sides ∧
      out = if sides.any (fun p => !p.1.eqv p.2) then [e] else [] := by
  simp only [evalNeAtom, collect_singleton, bind_ok_iff] at h
  obtain ⟨sides, hsides, h⟩ := h
  refine ⟨sides, hsides, ?_⟩
  cases sides with
  | none => simpa [eq_comm] using h
  | some p =>
    simp only [Except.ok.injEq] at h
    rw [← h, Option.any_some]
    cases p.1.eqv p.2 <;> rfl

theorem evalCmp_ok {op : CmpOp} {l r : Term × TermSem} {e : Env} {out : List Env}
    (h : evalCmpAtom ctx.astGateOn op l r [e] = .ok out) :
    ∃ keep : Bool, out = if keep then [e] else [] := by
  simp only [evalCmpAtom, collect_singleton, bind_ok_iff] at h
  obtain ⟨sides, -, h⟩ := h
  cases sides with
  | none => exact ⟨false, by simpa [eq_comm] using h⟩
  | some p =>
    simp only [bind_ok_iff, Except.ok.injEq] at h
    obtain ⟨i, -, j, -, rfl⟩ := h
    exact ⟨_, rfl⟩

theorem evalIn_ok {x : String} {values : List Value} {e : Env} {out : List Env}
    (h : evalInAtom ctx.astGateOn x values [e] = .ok out) :
    out = if (Dict.get? e x).any (fun v => values.any v.eqv) then [e] else [] := by
  simp only [evalInAtom, collect_singleton] at h
  cases hx : Dict.get? e x with
  | none =>
    cases hgate : ctx.astGateOn with
    | false => simp [hx, hgate] at h
    | true => simpa [hx, hgate, eq_comm] using h
  | some v =>
    simp only [hx, Except.ok.injEq] at h
    rw [← h, Option.any_some]

theorem evalNot_ok {body : WhereExpr} {e : Env} {out : List Env}
    (h : evalNotAtom ctx.astGateOn body (evalBranches ctx body) [e] = .ok out) :
    ∃ found, existsNotBody ctx.astGateOn e (evalBranches ctx body) = .ok found ∧
      out = if !found then [e] else [] := by
  simp only [evalNotAtom, collect_singleton, bind_ok_iff, Except.ok.injEq] at h
  obtain ⟨-, -, -, -, -, -, found, hfound, rfl⟩ := h
  exact ⟨found, hfound, by cases found <;> rfl⟩

theorem pointwise_collect {f : Env → Except Err (List Env)} {envs out : List Env}
    (h : collect f envs = .ok out) :
    ∃ g : Env → List Env, (∀ e ∈ envs, collect f [e] = .ok (g e)) ∧ out = envs.flatMap g := by
  simpa only [collect_singleton] using collect_eq_flatMap h

theorem evalPred_ok_iff {viewFacts : ViewFacts} {p : String} {terms : List Term}
    {envs out : List Env} : evalPredAtom viewFacts p terms envs = .ok out ↔
      ∃ facts, viewFacts p = some facts ∧ (∀ fact ∈ facts, fact.length = terms.length) ∧
        out = envs.flatMap fun env =>
          (predCandidatesForEnv facts terms env).filterMap fun fact =>
            matchTerms terms fact env := by
  simp only [evalPredAtom]
  cases viewFacts p with
  | none => simp
  | some facts =>
    simp only [bind_unit_ok_iff, each_ok_iff, require_ok_iff, beq_iff_eq, Except.ok.injEq,
      Option.some.injEq, exists_eq_left', @eq_comm _ out]

/-- **An atom treats its environments one by one.** -/
theorem evalAtom_pointwise {a : Atom} {envs out : List Env} (h : evalAtom ctx a envs = .ok out) :
    ∃ f : Env → List Env, (∀ e ∈ envs, evalAtom ctx a [e] = .ok (f e)) ∧
      out = envs.flatMap f := by
  cases a with
  | pred p terms =>
    obtain ⟨facts, hp, hlen, rfl⟩ := evalPred_ok_iff.mp h
    exact ⟨_, fun e _ => evalPred_ok_iff.mpr ⟨facts, hp, hlen, by simp⟩, rfl⟩
  | ruleref _ _ _ => cases h
  | cmp op l r => cases op <;> exact pointwise_collect h
  | inn x values => exact pointwise_collect h
  | builtin op args => exact pointwise_collect h
  | not body =>
    simp only [evalAtom, evalNotAtom, bind_unit_ok_iff] at h ⊢
    obtain ⟨g, hg, rfl⟩ := pointwise_collect h.2
    exact ⟨g, fun e he => ⟨h.1, hg e he⟩, rfl⟩

/-- **What an atom that reads no rows does** to one environment. -/
theorem outcome_evalAtom {a : Atom} (ha : ∀ p terms, a ≠ .pred p terms) {e : Env}
    {out : List Env} (h : evalAtom ctx a [e] = .ok out) : Outcome a e out := by
  have keeps : ∀ {a : Atom}, (∀ V, updateBoundVarsForPlan V a = V) →
      (∃ keep : Bool, out = if keep then [e] else []) → Outcome a e out := by
    rintro a ha ⟨keep, rfl⟩
    exact filter_outcome (ha _)
  cases a with
  | pred p terms => exact absurd rfl (ha p terms)
  | ruleref _ _ _ => cases h
  | cmp op l r =>
    cases op with
    | eq =>
      simp only [evalAtom, evalEqAtom, collect_singleton, bind_ok_iff] at h
      obtain ⟨lv, hlv, rv, hrv, h⟩ := h
      exact eqOutcome_outcome hlv hrv h
    | ne =>
      refine keeps (by simp [updateBoundVarsForPlan, newlyBound]) ?_
      obtain ⟨sides, -, rfl⟩ := evalNe_ok_iff h
      exact ⟨_, rfl⟩
    | gt | ge | lt | le =>
      refine keeps (by simp [updateBoundVarsForPlan, newlyBound]) ?_
      obtain ⟨keep, rfl⟩ := evalCmp_ok h
      exact ⟨keep, rfl⟩
  | inn x values =>
    exact keeps (by simp [updateBoundVarsForPlan, newlyBound]) ⟨_, evalIn_ok h⟩
  | builtin op args =>
    simp only [evalAtom, evalArithAtom, collect_singleton, bind_ok_iff] at h
    obtain ⟨result, -, h⟩ := h
    cases result with
    | none =>
      obtain rfl : out = [] := by simpa [eq_comm] using h
      exact .drop
    | some i =>
      cases args with
      | nil =>
        obtain rfl : out = [] := by simpa [resolveEvalTerms, eq_comm] using h
        exact .drop
      | cons z ts => exact bindOrCheckResult_outcome h
  | not body =>
    refine keeps (by simp [updateBoundVarsForPlan, newlyBound]) ?_
    obtain ⟨found, -, rfl⟩ := evalNot_ok h
    exact ⟨_, rfl⟩

/-- **An atom adds to an environment what the planner expects of it.** -/
theorem grows_evalAtom {a : Atom} {e : Env} {out : List Env} (h : evalAtom ctx a [e] = .ok out) :
    Grows a e out := by
  cases a with
  | pred p terms =>
    obtain ⟨facts, -, hlen, rfl⟩ := evalPred_ok_iff.mp h
    rw [List.flatMap_singleton]
    intro e' he'
    obtain ⟨fact, hfact, hmatch⟩ := List.mem_filterMap.mp he'
    rw [predCandidatesForEnv_eq_filter, List.mem_filter] at hfact
    exact grows_matchTerms (hlen fact hfact.1) hmatch
  | ruleref _ _ _ | cmp _ _ _ | inn _ _ | builtin _ _ | not _ =>
    exact (outcome_evalAtom (by simp) h).grows

/-! ## Bodies -/

theorem evalItems_map (ctx : EvalCtx) (as : List Atom) :
    evalItems ctx as = as.map fun a => (a, evalAtom ctx a) := by
  induction as with
  | nil => rfl
  | cons a as ih => rw [evalItems, List.map_cons, ih]

theorem resolveEvalTerms_map (ctx : EvalCtx) (ts : List Term) :
    resolveEvalTerms ctx ts = ts.map fun t => (t, resolveEvalTerm ctx t) := by
  induction ts with
  | nil => rfl
  | cons t ts ih => rw [resolveEvalTerms, List.map_cons, ih]

theorem evalBranches_map (ctx : EvalCtx) (body : WhereExpr) :
    evalBranches ctx body = body.branches.map (evalItems ctx) := by
  have hlist : ∀ bs, evalItemsList ctx bs = bs.map (evalItems ctx) := by
    intro bs
    induction bs with
    | nil => rfl
    | cons b bs ih => rw [evalItemsList, List.map_cons, ih]
  cases body with
  | and atoms => rfl
  | or branches => exact hlist branches

/-- Planning the maps of a body, or its relations, is planning the body. -/
theorem plan_items {β : Type} (f : Atom → β) (gate : Bool) (V : Scope) (as : List Atom)
    {planned : List (Atom × β)} :
    planBodyAtoms gate Prod.fst V (as.map fun a => (a, f a)) = .ok planned ↔
      ∃ p, planBodyAtoms gate id V as = .ok p ∧ planned = p.map fun a => (a, f a) := by
  rw [planBodyAtoms_map]
  have hkey : (Prod.fst ∘ fun a : Atom => (a, f a)) = id := rfl
  rw [hkey]
  cases planBodyAtoms gate id V as <;> simp [Except.map, eq_comm]

/-- The run of a body is the loop over its plan. -/
theorem evalBody_ok_iff {body : List Atom} {envs out : List Env} :
    evalBody ctx body envs = .ok out ↔
      ∃ p, planBodyAtoms ctx.astGateOn id (boundVars envs) body = .ok p ∧
        runPlanned (evalItems ctx p) envs = .ok out := by
  simp only [evalBody, runBody, bind_ok_iff, evalItems_map, plan_items]
  constructor
  · rintro ⟨-, ⟨p, hp, rfl⟩, h⟩
    exact ⟨p, hp, h⟩
  · rintro ⟨p, hp, h⟩
    exact ⟨_, ⟨p, hp, rfl⟩, h⟩

theorem nodup_runPlanned {as : List Atom} {envs out : List Env}
    (henvs : ∀ e ∈ envs, (Dict.keys e).Nodup)
    (h : runPlanned (evalItems ctx as) envs = .ok out) : ∀ e ∈ out, (Dict.keys e).Nodup := by
  induction as generalizing envs with
  | nil =>
    simp only [evalItems, runPlanned, Except.ok.injEq] at h
    exact h ▸ henvs
  | cons a as ih =>
    simp only [evalItems, runPlanned, bind_ok_iff] at h
    obtain ⟨envs', henvs', h⟩ := h
    split at h
    · obtain rfl : out = [] := by simpa [eq_comm] using h
      simp
    · refine ih (fun e' he' => ?_) h
      obtain ⟨f, hf, rfl⟩ := evalAtom_pointwise henvs'
      obtain ⟨e, he, he'⟩ := List.mem_flatMap.mp he'
      exact (grows_evalAtom (hf e he) e' he').2 (henvs e he)

end FactGraph.Rules
