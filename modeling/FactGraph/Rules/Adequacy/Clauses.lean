import Mathlib.Data.List.Forall2
import FactGraph.Rules.Adequacy.Atoms

/-!
# Bodies, negation and aggregates

A body that returns has enumerated its matches: by induction on the planned atoms, with the
choices of the atoms so far as the outer search and those of the next atom as the inner one. The
evaluator stops a body that has no environment left; there is nothing to enumerate then, so the
atoms it does not reach make no difference.

With that, a `not` is the emptiness of its branches, an aggregate is a function of the
enumeration of its filter, and the two kinds of recursion of the syntax — an atom in a body, a
term in an atom — close in one induction.
-/

namespace FactGraph.Rules

open Check Enumeration

variable {ctx : EvalCtx}

/-- The map of an atom enumerates the atom. -/
abbrev AtomAdequate (ctx : EvalCtx) (a : Atom) : Prop :=
  Implements a (evalAtom ctx a) (atomRel ctx a)

/-- The map of a term resolves the term. -/
abbrev TermAdequate (ctx : EvalCtx) (t : Term) : Prop :=
  ImplementsTerm (resolveEvalTerm ctx t) (termRel ctx t)

/-! ## The loop -/

theorem itemRels_map (ctx : EvalCtx) (as : List Atom) :
    itemRels ctx as = as.map fun a => (a, atomRel ctx a) := by
  induction as with
  | nil => rfl
  | cons a as ih => rw [itemRels, List.map_cons, ih]

/-- The matches of a sequence of atoms that start from the solutions of `R`. -/
def MatchesFrom (ctx : EvalCtx) (V : Scope) (R : List Nat → Binding → Prop) (as : List Atom)
    (c : List Nat) (τ : Binding) : Prop :=
  ∃ c₁ c₂ σ, c = c₁ ++ c₂ ∧ R c₁ σ ∧ Extends V σ (scopeAfter V as) τ ∧
    chain (itemRels ctx as) V τ c₂

/-- The solutions after one more atom. -/
def StepFrom (ctx : EvalCtx) (V : Scope) (R : List Nat → Binding → Prop) (a : Atom)
    (c : List Nat) (τ : Binding) : Prop :=
  ∃ c₁ c₂ σ, c = c₁ ++ c₂ ∧ R c₁ σ ∧ Extends V σ (updateBoundVarsForPlan V a) τ ∧
    atomRel ctx a V τ c₂

theorem matchesFrom_nil {V : Scope} {R : List Nat → Binding → Prop}
    (hR : ∀ c σ, R c σ → ∀ x, x ∈ V ↔ (σ x).isSome) (c : List Nat) (τ : Binding) :
    MatchesFrom ctx V R [] c τ ↔ R c τ := by
  constructor
  · rintro ⟨c₁, c₂, σ, rfl, h, hext, hc⟩
    obtain rfl : c₂ = [] := hc
    obtain rfl := Extends.eq_of_same_scope (hR c₁ σ h) hext
    rwa [List.append_nil]
  · intro h
    exact ⟨c, [], τ, (List.append_nil c).symm, h, Extends.refl (hR c τ h), rfl⟩

/-- The first atom of a sequence, and the rest from its solutions. -/
theorem matchesFrom_cons {V : Scope} {R : List Nat → Binding → Prop} {a : Atom}
    {as : List Atom} (c : List Nat) (τ : Binding) :
    MatchesFrom ctx V R (a :: as) c τ ↔
      MatchesFrom ctx (updateBoundVarsForPlan V a) (StepFrom ctx V R a) as c τ := by
  have hsub := subset_updateBoundVars V a
  constructor
  · rintro ⟨c₁, c₂, σ, rfl, h, hext, c₃, c₄, rfl, hatom, hrest⟩
    obtain ⟨hfirst, hlast⟩ := hext.restrict hsub (subset_scopeAfter _ as)
    refine ⟨c₁ ++ c₃, c₄, _, by rw [List.append_assoc], ⟨c₁, c₃, σ, rfl, h, hfirst, ?_⟩,
      hlast, hrest⟩
    exact (atomRel_local ctx a V _ _ c₃ fun x hx => Binding.restrict_of_mem hx).mpr hatom
  · rintro ⟨c₁, c₂, ρ, rfl, ⟨c₃, c₄, σ, rfl, h, hfirst, hatom⟩, hlast, hrest⟩
    refine ⟨c₃, c₄ ++ c₂, σ, by rw [List.append_assoc], h, hfirst.trans hsub hlast, c₄, c₂, rfl,
      ?_, hrest⟩
    exact (atomRel_local ctx a V _ _ c₄ hlast.1).mpr hatom

/-- One atom, run on a list of environments of one scope. -/
theorem enumerates_step {a : Atom} (ha : AtomAdequate ctx a) {V : Scope} {n : Nat}
    {R : List Nat → Binding → Prop} {envs out : List Env}
    (henvs : Enumerates n (envs.map Env.binding) R)
    (hR : ∀ c σ, R c σ → ∀ x, x ∈ V ↔ (σ x).isSome) (h : evalAtom ctx a envs = .ok out) :
    Enumerates (n + a.width) (out.map Env.binding) (StepFrom ctx V R a) := by
  obtain ⟨f, hf, rfl⟩ := evalAtom_pointwise h
  rw [List.map_flatMap]
  refine henvs.flatMap (S := fun σ c τ => Extends V σ (updateBoundVarsForPlan V a) τ ∧
    atomRel ctx a V τ c) fun e he => ?_
  obtain ⟨c, hc⟩ := henvs.mem_iff.mp (List.mem_map_of_mem he)
  have hscope : e.scope = V := Env.scope_eq_of_forall (hR c _ hc)
  have := ha e (f e) (hf e he)
  rwa [hscope] at this

/-- **The loop over a body enumerates.** -/
theorem enumerates_runPlanned {as : List Atom} (has : ∀ a ∈ as, AtomAdequate ctx a) {V : Scope}
    {n : Nat} {R : List Nat → Binding → Prop} {envs out : List Env}
    (henvs : Enumerates n (envs.map Env.binding) R)
    (hR : ∀ c σ, R c σ → ∀ x, x ∈ V ↔ (σ x).isSome)
    (h : runPlanned (evalItems ctx as) envs = .ok out) :
    ∃ m, Enumerates m (out.map Env.binding) (MatchesFrom ctx V R as) := by
  induction as generalizing V n R envs with
  | nil =>
    simp only [evalItems, runPlanned, Except.ok.injEq] at h
    subst h
    exact ⟨n, henvs.congr fun c σ => (matchesFrom_nil hR c σ).symm⟩
  | cons a as ih =>
    rw [List.forall_mem_cons] at has
    simp only [evalItems, runPlanned, bind_ok_iff] at h
    obtain ⟨envs', henvs', h⟩ := h
    have hstep := enumerates_step has.1 henvs hR henvs'
    have hR' : ∀ c σ, StepFrom ctx V R a c σ →
        ∀ x, x ∈ updateBoundVarsForPlan V a ↔ (σ x).isSome := by
      rintro c σ ⟨_, _, _, _, _, hext, _⟩
      exact hext.2
    split at h
    · next hempty =>
      -- no environment is left, so no later atom has anything to extend
      obtain rfl : out = [] := by simpa [eq_comm] using h
      rw [List.isEmpty_iff] at hempty
      rw [hempty, List.map_nil] at hstep
      refine ⟨0, enumerates_nil fun c τ hτ => ?_⟩
      obtain ⟨c₁, -, σ, -, hσ, -⟩ := (matchesFrom_cons c τ).mp hτ
      exact (hstep.eq_nil_iff.mp rfl) ⟨c₁, σ, hσ⟩
    · obtain ⟨m, hm⟩ := ih has.2 hstep hR' h
      exact ⟨m, hm.congr fun c τ => (matchesFrom_cons c τ).symm⟩

/-! ## The plan -/

theorem matches_iff {body : List Atom} {V : Scope} {τ σ : Binding} {c : List Nat} :
    Matches ctx.astGateOn (itemRels ctx body) V τ c σ ↔
      ∃ p, planBodyAtoms ctx.astGateOn id V body = .ok p ∧
        Extends V τ (scopeAfter V p) σ ∧ chain (itemRels ctx p) V σ c := by
  rw [Matches, itemRels_map]
  simp only [plan_items]
  constructor
  · rintro ⟨-, ⟨p, hp, rfl⟩, hext, hchain⟩
    rw [List.map_map] at hext
    have hfst : (Prod.fst ∘ fun a : Atom => (a, atomRel ctx a)) = id := rfl
    rw [hfst, List.map_id] at hext
    exact ⟨p, hp, hext, by rwa [itemRels_map]⟩
  · rintro ⟨p, hp, hext, hchain⟩
    refine ⟨_, ⟨p, hp, rfl⟩, ?_, by rwa [← itemRels_map]⟩
    have hfst : (Prod.fst ∘ fun a : Atom => (a, atomRel ctx a)) = id := rfl
    rwa [List.map_map, hfst, List.map_id]

theorem adequate_of_plan {body p : List Atom} (hbody : ∀ a ∈ body, AtomAdequate ctx a)
    {gate : Bool} {V : Scope} (hp : planBodyAtoms gate id V body = .ok p) :
    ∀ a ∈ p, AtomAdequate ctx a :=
  fun a ha => hbody a ((planBodyAtoms_perm hp).mem_iff.mp ha)

/-- **A body enumerates its matches**, from one environment. -/
theorem enumerates_evalBody {body : List Atom} (hbody : ∀ a ∈ body, AtomAdequate ctx a)
    {e : Env} {out : List Env} (h : evalBody ctx body [e] = .ok out) :
    ∃ n, Enumerates n (out.map Env.binding)
      (Matches ctx.astGateOn (itemRels ctx body) e.scope e.binding) := by
  obtain ⟨p, hp, hrun⟩ := evalBody_ok_iff.mp h
  rw [boundVars_singleton] at hp
  have hstart : Enumerates 0 ([e].map Env.binding) fun c σ => c = [] ∧ σ = e.binding :=
    enumerates_of_forall (by simp) (by simp)
  obtain ⟨n, hn⟩ := enumerates_runPlanned (adequate_of_plan hbody hp) (V := e.scope) hstart
    (by rintro c σ ⟨-, rfl⟩; exact fun x => Env.mem_scope) hrun
  refine ⟨n, hn.congr fun c σ => ?_⟩
  rw [matches_iff]
  constructor
  · rintro ⟨c₁, c₂, τ, rfl, ⟨rfl, rfl⟩, hext, hchain⟩
    exact ⟨p, hp, hext, hchain⟩
  · rintro ⟨p', hp', hext, hchain⟩
    rw [hp, Except.ok.injEq] at hp'
    subst hp'
    exact ⟨[], c, e.binding, rfl, ⟨rfl, rfl⟩, hext, hchain⟩

/-! ## Negation -/

theorem branchRels_map (ctx : EvalCtx) (body : WhereExpr) :
    branchRels ctx body = body.branches.map (itemRels ctx) := by
  have hlist : ∀ bs, itemRelsList ctx bs = bs.map (itemRels ctx) := by
    intro bs
    induction bs with
    | nil => rfl
    | cons b bs ih => rw [itemRelsList, List.map_cons, ih]
  cases body with
  | and atoms => rfl
  | or branches => exact hlist branches

/-- `_exists_not_body` finds a branch with a match. -/
theorem existsNotBody_iff {branches : List (List Atom)}
    (hbranches : ∀ b ∈ branches, ∀ a ∈ b, AtomAdequate ctx a) {e : Env} {found : Bool}
    (h : existsNotBody ctx.astGateOn e (branches.map (evalItems ctx)) = .ok found) :
    found = true ↔ ∃ b ∈ branches, ∃ c σ,
      Matches ctx.astGateOn (itemRels ctx b) e.scope e.binding c σ := by
  induction branches with
  | nil =>
    simp only [List.map_nil, existsNotBody, Except.ok.injEq] at h
    simp [← h]
  | cons b bs ih =>
    rw [List.forall_mem_cons] at hbranches
    simp only [List.map_cons, existsNotBody, bind_ok_iff] at h
    obtain ⟨envs, henvs, h⟩ := h
    obtain ⟨n, hn⟩ := enumerates_evalBody hbranches.1 (e := e) henvs
    have hempty : envs = [] ↔ ¬ ∃ c σ,
        Matches ctx.astGateOn (itemRels ctx b) e.scope e.binding c σ := by
      rw [← hn.eq_nil_iff, List.map_eq_nil_iff]
    rw [List.exists_mem_cons_iff]
    split at h
    · next he =>
      rw [List.isEmpty_iff, hempty] at he
      rw [ih hbranches.2 h]
      simp [he]
    · next he =>
      rw [List.isEmpty_iff, hempty, not_not] at he
      simp only [Except.ok.injEq] at h
      simp [← h, he]

theorem evalNot_implements {body : WhereExpr}
    (hbody : ∀ b ∈ body.branches, ∀ a ∈ b, AtomAdequate ctx a) :
    AtomAdequate ctx (.not body) := by
  intro e out h
  obtain ⟨found, hfound, rfl⟩ := evalNot_ok h
  rw [evalBranches_map] at hfound
  have hiff := existsNotBody_iff hbody hfound
  refine enumerates_filter (by simp [updateBoundVarsForPlan, newlyBound])
    (fun σ c h => h.1) ?_
  have hrel : atomRel ctx (.not body) e.scope e.binding [] ↔ ¬ found = true := by
    simp only [atomRel, notRel, branchRels_map, true_and, List.mem_map, exists_exists_and_eq_and,
      hiff]
  rw [hrel]
  cases found <;> simp

/-! ## Aggregates -/

/-- A target stopped at a binding without a value, or has a value at every binding. -/
theorem targetValues_ok {target : TermSem} {envs : List Env} {values : Option (List Value)}
    (h : targetValues target envs = .ok values) :
    (values = none ∧ ∃ e ∈ envs, target e = .ok .unbound ∨ target e = .ok .noValue) ∨
      ∃ vs, values = some vs ∧ List.Forall₂ (fun e v => target e = .ok (.value v)) envs vs := by
  induction envs generalizing values with
  | nil =>
    simp only [targetValues, Except.ok.injEq] at h
    exact Or.inr ⟨[], h.symm, .nil⟩
  | cons e envs ih =>
    simp only [targetValues, bind_ok_iff] at h
    obtain ⟨r, hr, h⟩ := h
    rw [List.exists_mem_cons_iff]
    cases r with
    | unbound =>
      obtain rfl : values = none := by simpa [eq_comm] using h
      exact Or.inl ⟨rfl, Or.inl (Or.inl hr)⟩
    | noValue =>
      obtain rfl : values = none := by simpa [eq_comm] using h
      exact Or.inl ⟨rfl, Or.inl (Or.inr hr)⟩
    | value v =>
      simp only [bind_ok_iff, Except.ok.injEq] at h
      obtain ⟨vs, hvs, rfl⟩ := h
      rcases ih hvs with ⟨rfl, hstop⟩ | ⟨vs, rfl, hall⟩
      · exact Or.inl ⟨rfl, Or.inr hstop⟩
      · exact Or.inr ⟨v :: vs, rfl, .cons hr hall⟩

/-- The target of an aggregate, read at a binding found: in the scope it binds. -/
def TargetAt (target : TermRel) (σ : Binding) (r : Resolved) : Prop :=
  ∃ W, (∀ x, x ∈ W ↔ (σ x).isSome) ∧ target W σ r

theorem targetAt_iff {target : TermRel} {sem : TermSem} (ht : ImplementsTerm sem target)
    {e : Env} {r : Resolved} (h : sem e = .ok r) (r' : Resolved) :
    TargetAt target e.binding r' ↔ r' = r := by
  rw [← ht e r h]
  constructor
  · rintro ⟨W, hW, htarget⟩
    rwa [Env.scope_eq_of_forall hW]
  · exact fun htarget => ⟨e.scope, fun x => Env.mem_scope, htarget⟩

/-- The values of the target are determined, and no binding is without one. -/
theorem targetAt_values {target : TermRel} {sem : TermSem} (ht : ImplementsTerm sem target)
    {envs : List Env} {vs : List Value}
    (h : List.Forall₂ (fun e v => sem e = .ok (.value v)) envs vs) :
    (∀ ws, List.Forall₂ (fun σ v => TargetAt target σ (.value v)) (envs.map Env.binding) ws ↔
      ws = vs) ∧
    ¬ ∃ σ ∈ envs.map Env.binding, TargetAt target σ .unbound ∨ TargetAt target σ .noValue := by
  induction h with
  | nil => simp
  | cons hr hall ih =>
    obtain ⟨hvalues, hstop⟩ := ih
    refine ⟨fun ws => ?_, ?_⟩
    · cases ws with
      | nil => simp
      | cons w ws => simp [hvalues, targetAt_iff ht hr]
    · rw [List.map_cons, List.exists_mem_cons_iff]
      simpa [targetAt_iff ht hr] using hstop

/-- **An aggregate is a function of its matches.** -/
theorem resolveAggregate_implements {kind : AggKind} {target : TermRel} {sem : TermSem}
    (ht : ImplementsTerm sem target) {filter : List Atom}
    (hfilter : ∀ a ∈ filter, AtomAdequate ctx a) :
    ImplementsTerm (resolveAggregate ctx kind sem (evalItems ctx filter))
      (aggRel ctx kind target (itemRels ctx filter)) := by
  intro e r h r'
  simp only [resolveAggregate, bind_ok_iff] at h
  obtain ⟨matched, hmatched, h⟩ := h
  obtain ⟨n, hn⟩ := enumerates_evalBody hfilter (e := e) hmatched
  -- the matches are one list, so the aggregate is of that list
  have hlist : aggRel ctx kind target (itemRels ctx filter) e.scope e.binding r' ↔
      AggregateIs ctx.floats kind (TargetAt target) (matched.map Env.binding) r' := by
    constructor
    · rintro ⟨m, found, hfound, hr⟩
      rwa [hfound.unique hn] at hr
    · exact fun hr => ⟨n, _, hn, hr⟩
  rw [hlist, AggregateIs, List.length_map]
  split at h
  · next hkind =>
    simp only [Except.ok.injEq] at h
    rw [if_pos hkind, ← h]
  next hkind =>
  rw [if_neg hkind]
  split at h
  · next hempty =>
    simp only [Except.ok.injEq] at h
    rw [if_pos (by simpa [List.isEmpty_iff] using hempty), ← h]
  next hempty =>
  rw [if_neg (by simpa [List.isEmpty_iff] using hempty)]
  rw [bind_ok_iff] at h
  obtain ⟨values, hvalues, h⟩ := h
  rcases targetValues_ok hvalues with ⟨rfl, e', he', hstop⟩ | ⟨vs, rfl, hall⟩
  · -- a match without a value: no list of values exists
    simp only [Except.ok.injEq] at h
    subst h
    have hno : ∀ v, ¬ TargetAt target e'.binding (.value v) := by
      intro v hv
      rcases hstop with hstop | hstop <;> simp [targetAt_iff ht hstop] at hv
    constructor
    · rintro (⟨-, hr⟩ | ⟨ws, hws, -⟩)
      · exact hr
      · have hall : ∀ σ ∈ matched.map Env.binding, ∃ v, TargetAt target σ (.value v) :=
          ((List.forall₂_and_left _ _).mp (hws.imp fun σ v hv => ⟨⟨v, hv⟩, hv⟩)).1
        obtain ⟨w, hw⟩ := hall _ (List.mem_map_of_mem he')
        exact absurd hw (hno w)
    · rintro rfl
      refine Or.inl ⟨⟨_, List.mem_map_of_mem he', ?_⟩, rfl⟩
      rcases hstop with hstop | hstop <;> simp [targetAt_iff ht hstop]
  · obtain ⟨hvs, hnone⟩ := targetAt_values ht hall
    simp only at h
    simp only [hvs, exists_eq_left, h, Except.ok.injEq, @eq_comm _ r, hnone, false_and,
      false_or]

/-! ## The induction over the syntax -/

theorem const_adequate (v : Value) : TermAdequate ctx (.const v) := by
  intro e r h r'
  obtain rfl : r = .value v := by simpa [resolveEvalTerm, eq_comm] using h
  exact Iff.rfl

mutual

theorem termAdequate (hnone : NoNoneCells ctx.viewFacts) : ∀ t, TermAdequate ctx t
  | .var x => resolveVar_implements x
  | .const v => const_adequate v
  | .agg _ target filter =>
      resolveAggregate_implements (targetAdequate hnone target) (atomsAdequate hnone filter)

theorem targetAdequate (hnone : NoNoneCells ctx.viewFacts) :
    ∀ target, ImplementsTerm (resolveTarget ctx target) (targetRel ctx target)
  | none => @const_adequate ctx .none
  | some t => termAdequate hnone t

theorem termsAdequate (hnone : NoNoneCells ctx.viewFacts) :
    ∀ ts : List Term, ∀ t ∈ ts, TermAdequate ctx t
  | [] => by simp
  | t :: ts => List.forall_mem_cons.mpr ⟨termAdequate hnone t, termsAdequate hnone ts⟩

theorem atomAdequate (hnone : NoNoneCells ctx.viewFacts) : ∀ a, AtomAdequate ctx a
  | .pred p terms => evalPred_implements hnone p terms
  | .ruleref _ _ _ => fun _ _ h => by cases h
  | .cmp .eq l r => evalEq_implements (termAdequate hnone l) (termAdequate hnone r)
  | .cmp .ne l r => evalNe_implements (termAdequate hnone l) (termAdequate hnone r)
  | .cmp .gt l r => evalCmp_implements (by simp [updateBoundVarsForPlan, newlyBound]) rfl
      (termAdequate hnone l) (termAdequate hnone r)
  | .cmp .ge l r => evalCmp_implements (by simp [updateBoundVarsForPlan, newlyBound]) rfl
      (termAdequate hnone l) (termAdequate hnone r)
  | .cmp .lt l r => evalCmp_implements (by simp [updateBoundVarsForPlan, newlyBound]) rfl
      (termAdequate hnone l) (termAdequate hnone r)
  | .cmp .le l r => evalCmp_implements (by simp [updateBoundVarsForPlan, newlyBound]) rfl
      (termAdequate hnone l) (termAdequate hnone r)
  | .inn x values => evalIn_implements x values
  | .builtin _ args => evalArith_implements (termsAdequate hnone args)
  | .not body => evalNot_implements (whereAdequate hnone body)

theorem atomsAdequate (hnone : NoNoneCells ctx.viewFacts) :
    ∀ as : List Atom, ∀ a ∈ as, AtomAdequate ctx a
  | [] => by simp
  | a :: as => List.forall_mem_cons.mpr ⟨atomAdequate hnone a, atomsAdequate hnone as⟩

theorem branchesAdequate (hnone : NoNoneCells ctx.viewFacts) :
    ∀ bs : List (List Atom), ∀ b ∈ bs, ∀ a ∈ b, AtomAdequate ctx a
  | [] => by simp
  | b :: bs => List.forall_mem_cons.mpr ⟨atomsAdequate hnone b, branchesAdequate hnone bs⟩

theorem whereAdequate (hnone : NoNoneCells ctx.viewFacts) :
    ∀ w : WhereExpr, ∀ b ∈ w.branches, ∀ a ∈ b, AtomAdequate ctx a
  | .and atoms => by simpa [WhereExpr.branches] using atomsAdequate hnone atoms
  | .or branches => branchesAdequate hnone branches

end

/-!
## A clause

`evaluate_where` joins the bindings of the branches, keeps one of each class of equal bindings
and sorts what is left. The key it compares by lists a binding in the order of its variables, so
two environments have one key exactly when they bind the same variables to equal values.
-/

/-! ## Keys -/

theorem mem_seenKey {e : Env} (he : (Dict.keys e).Nodup) {x : String} {c : Value} :
    (x, c) ∈ seenKey e ↔ (e.binding x).map Value.canon = some c := by
  simp only [seenKey, bindingKey, List.mem_map, List.mem_insertionSort, Prod.mk.injEq,
    Prod.exists, Option.map_eq_some_iff, Env.binding, Dict.get?_eq_some_iff he]
  constructor
  · rintro ⟨y, v, hmem, rfl, hv⟩
    exact ⟨v, hmem, hv⟩
  · rintro ⟨v, hmem, hv⟩
    exact ⟨x, v, hmem, rfl, hv⟩

theorem pairwise_seenKey {e : Env} (he : (Dict.keys e).Nodup) :
    (seenKey e).Pairwise fun p q => p.1 < q.1 := by
  have : Std.Total fun p q : String × Value => p.1 ≤ q.1 := ⟨fun p q => le_total p.1 q.1⟩
  have : IsTrans (String × Value) fun p q => p.1 ≤ q.1 := ⟨fun _ _ _ => le_trans⟩
  have hsorted : (bindingKey e).Pairwise fun p q => p.1 ≤ q.1 := List.pairwise_insertionSort _ e
  have hnodup : (bindingKey e).Pairwise fun p q => p.1 ≠ q.1 := by
    have hperm := (List.perm_insertionSort (fun p q : String × Value => p.1 ≤ q.1) e).map Prod.fst
    exact List.pairwise_map.mp (hperm.nodup_iff.mpr he)
  exact List.pairwise_map.mpr ((hsorted.and hnodup).imp fun h => lt_of_le_of_ne h.1 h.2)

/-- **One key, one binding up to equality.** -/
theorem seenKey_eq_iff {e e' : Env} (he : (Dict.keys e).Nodup) (he' : (Dict.keys e').Nodup) :
    seenKey e = seenKey e' ↔ Binding.Eqv e.binding e'.binding := by
  constructor
  · intro h x
    ext c
    rw [← mem_seenKey he, ← mem_seenKey he', h]
  · intro h
    have hperm : (seenKey e).Perm (seenKey e') := by
      have hnd : ∀ {l : List (String × Value)}, l.Pairwise (fun p q => p.1 < q.1) → l.Nodup :=
        fun hl => hl.imp fun hlt heq => absurd hlt (by rw [heq]; exact lt_irrefl _)
      rw [List.perm_ext_iff_of_nodup (hnd (pairwise_seenKey he)) (hnd (pairwise_seenKey he'))]
      rintro ⟨x, c⟩
      rw [mem_seenKey he, mem_seenKey he', h x]
    exact hperm.eq_of_pairwise (fun p q _ _ hpq hqp => absurd hpq (lt_asymm hqp))
      (pairwise_seenKey he) (pairwise_seenKey he')

/-! ## Deduplication and sorting -/

theorem dedupBindings_spec (envs : List Env) :
    (∀ e ∈ dedupBindings envs, e ∈ envs) ∧
    (∀ e ∈ envs, ∃ e' ∈ dedupBindings envs, seenKey e' = seenKey e) ∧
    (dedupBindings envs).Pairwise fun e e' => seenKey e ≠ seenKey e' := by
  suffices h : ∀ kept : List Env, kept.Pairwise (fun e e' => seenKey e ≠ seenKey e') →
      let out := envs.foldl (fun kept env =>
        if kept.any fun e => seenKey e = seenKey env then kept else kept ++ [env]) kept
      (∀ e ∈ out, e ∈ kept ∨ e ∈ envs) ∧ (∀ e ∈ kept, e ∈ out) ∧
      (∀ e ∈ envs, ∃ e' ∈ out, seenKey e' = seenKey e) ∧
      out.Pairwise fun e e' => seenKey e ≠ seenKey e' by
    obtain ⟨hsub, -, hcover, hpair⟩ := h [] List.Pairwise.nil
    exact ⟨fun e he => (hsub e he).resolve_left (by simp), hcover, hpair⟩
  induction envs with
  | nil => intro kept hkept; simp [hkept]
  | cons env envs ih =>
    intro kept hkept
    simp only [List.foldl_cons]
    by_cases hseen : kept.any fun e => seenKey e = seenKey env
    · rw [if_pos hseen]
      obtain ⟨hsub, hold, hcover, hpair⟩ := ih kept hkept
      obtain ⟨e', he', heq⟩ := List.any_eq_true.mp hseen
      refine ⟨fun e he => (hsub e he).imp_right (List.mem_cons_of_mem _), hold, ?_, hpair⟩
      exact List.forall_mem_cons.mpr ⟨⟨e', hold e' he', by simpa using heq⟩, hcover⟩
    · rw [if_neg hseen]
      have hnew : ∀ e ∈ kept, seenKey e ≠ seenKey env := by simpa using hseen
      obtain ⟨hsub, hold, hcover, hpair⟩ := ih (kept ++ [env]) (by
        rw [List.pairwise_append]
        exact ⟨hkept, by simp, by simpa using hnew⟩)
      refine ⟨fun e he => ?_, fun e he => hold e (List.mem_append_left _ he), ?_, hpair⟩
      · have := hsub e he
        simp only [List.mem_append, List.mem_singleton] at this
        simp only [List.mem_cons]
        tauto
      · exact List.forall_mem_cons.mpr ⟨⟨env, hold env (by simp), rfl⟩, hcover⟩

theorem sortBindings_perm {envs out : List Env} (h : sortBindings envs = .ok out) :
    out.Perm envs := by
  rw [sortBindings] at h
  split at h
  · rw [Except.ok.injEq] at h
    exact h ▸ List.perm_insertionSort _ envs
  · cases h

/-! ## The result -/

/-- The bindings of the branches, one list after the other. -/
theorem mem_evalBranchBindings (hnone : NoNoneCells ctx.viewFacts) {w : WhereExpr}
    {out : List Env} (h : evalBranchBindings ctx w = .ok out) :
    (∀ e ∈ out, (Dict.keys e).Nodup) ∧
    ∀ σ, σ ∈ out.map Env.binding ↔ ∃ b ∈ w.branches, Satisfies ctx b σ := by
  obtain ⟨f, hf, rfl⟩ := collect_eq_flatMap h
  have hstart : (Dict.keys ([] : Env)).Nodup := List.nodup_nil
  refine ⟨fun e he => ?_, fun σ => ?_⟩
  · obtain ⟨b, hb, he⟩ := List.mem_flatMap.mp he
    obtain ⟨p, hp, hrun⟩ := evalBody_ok_iff.mp (hf b hb)
    exact nodup_runPlanned (by simpa using hstart) hrun e he
  · rw [List.map_flatMap, List.mem_flatMap]
    refine exists_congr fun b => and_congr_right fun hb => ?_
    obtain ⟨n, hn⟩ := enumerates_evalBody (whereAdequate hnone w b hb) (e := []) (hf b hb)
    exact hn.mem_iff

/-- What a successful evaluation has passed through. -/
theorem evaluateWhere_ok {w : WhereExpr} {out : List Env} (h : evaluateWhere ctx w = .ok out) :
    ∃ bindings, evalBranchBindings ctx w = .ok bindings ∧ out.Perm (dedupBindings bindings) := by
  simp only [evaluateWhere, bind_ok_iff] at h
  obtain ⟨-, -, -, -, bindings, hbindings, h⟩ := h
  exact ⟨bindings, hbindings, sortBindings_perm h⟩

/-- A list of bindings is the answer to a clause: all that satisfy a branch, and each once. -/
structure Answers (ctx : EvalCtx) (w : WhereExpr) (out : List Env) : Prop where
  sound : ∀ e ∈ out, ∃ b ∈ w.branches, Satisfies ctx b e.binding
  complete : ∀ b ∈ w.branches, ∀ σ, Satisfies ctx b σ → ∃ e ∈ out, Binding.Eqv e.binding σ
  distinct : out.Pairwise fun e e' => ¬ Binding.Eqv e.binding e'.binding

theorem answers_of_evaluateWhere (hnone : NoNoneCells ctx.viewFacts) {w : WhereExpr}
    {out : List Env} (h : evaluateWhere ctx w = .ok out) : Answers ctx w out := by
  obtain ⟨bindings, hbindings, hperm⟩ := evaluateWhere_ok h
  obtain ⟨hnodup, hmem⟩ := mem_evalBranchBindings hnone hbindings
  obtain ⟨hsub, hcover, hpair⟩ := dedupBindings_spec bindings
  have hout : ∀ e ∈ out, e ∈ bindings := fun e he => hsub e (hperm.mem_iff.mp he)
  refine ⟨fun e he => (hmem _).mp (List.mem_map_of_mem (hout e he)), fun b hb σ hσ => ?_, ?_⟩
  · obtain ⟨e, he, rfl⟩ := List.mem_map.mp ((hmem σ).mpr ⟨b, hb, hσ⟩)
    obtain ⟨e', he', heq⟩ := hcover e he
    exact ⟨e', hperm.mem_iff.mpr he',
      (seenKey_eq_iff (hnodup e' (hsub e' he')) (hnodup e he)).mp heq⟩
  · have hpair : out.Pairwise fun e e' => seenKey e ≠ seenKey e' :=
      (hperm.pairwise_iff fun hne => hne.symm).mpr hpair
    refine hpair.imp_of_mem fun he he' hne heqv => hne ?_
    exact (seenKey_eq_iff (hnodup _ (hout _ he)) (hnodup _ (hout _ he'))).mpr heqv

end FactGraph.Rules
