import FactGraph.Rules.Adequacy.Clauses

/-!
# The order of the rows

A view is a set of rows, and the evaluator goes through a list of them. What it returns does not
depend on the order of that list, up to the order of the bindings and to which of several errors is
raised, with one exception: an aggregate hands the values of its matches over in the order of the
rows. A body in which no aggregate tells two orders of its matches apart (`RowBlindWhere`) has the
same answer on views with the same rows.
-/

namespace FactGraph.Rules

open Check

/-! ## Values that Python takes to be equal -/

theorem Value.number?_of_canon {v w : Value} (h : v.canon = w.canon) : v.number? = w.number? := by
  cases v <;> cases w <;> simp_all [Value.canon, Value.number?]

/-- A value without a number is its own representative. -/
theorem Value.eq_of_canon {v w : Value} (h : v.canon = w.canon)
    (hv : v.number? = Option.none) : v = w := by
  have hw : w.number? = Option.none := by rw [← Value.number?_of_canon h, hv]
  simpa [Value.canon, hv, hw] using h

theorem Value.lt?_congr {v v' w w' : Value} (hv : v.canon = v'.canon) (hw : w.canon = w'.canon) :
    v.lt? w = v'.lt? w' := by
  have hnv := Value.number?_of_canon hv
  have hnw := Value.number?_of_canon hw
  cases ha : v.number? with
  | some a =>
    cases hb : w.number? <;> simp [Value.lt?, ← hnv, ← hnw, ha, hb]
  | none =>
    obtain rfl := Value.eq_of_canon hv ha
    cases hb : w.number? with
    | some b => simp [Value.lt?, ← hnw, ha, hb]
    | none =>
      obtain rfl := Value.eq_of_canon hw hb
      rfl

/-! ## Two runs -/

/-- Two runs both raise, or both return, and what they return is related. Which error is raised is
not told. -/
inductive Together {α : Type} (R : α → α → Prop) : Except Err α → Except Err α → Prop
  | raise (e e' : Err) : Together R (.error e) (.error e')
  | ret {a b : α} : R a b → Together R (.ok a) (.ok b)

namespace Together

variable {α β : Type} {R : α → α → Prop} {S : β → β → Prop}

theorem refl (hR : ∀ a, R a a) (x : Except Err α) : Together R x x := by
  cases x with
  | error e => exact .raise e e
  | ok a => exact .ret (hR a)

theorem trans {x y z : Except Err α} (hR : ∀ a b c, R a b → R b c → R a c)
    (h : Together R x y) (h' : Together R y z) : Together R x z := by
  cases h with
  | raise e e' =>
    cases h' with
    | raise _ e'' => exact .raise e e''
  | ret hab =>
    cases h' with
    | ret hbc => exact .ret (hR _ _ _ hab hbc)

theorem bind {x y : Except Err α} {f g : α → Except Err β} (h : Together R x y)
    (hfg : ∀ a b, x = .ok a → y = .ok b → R a b → Together S (f a) (g b)) :
    Together S (x >>= f) (y >>= g) := by
  cases h with
  | raise e e' => exact .raise e e'
  | ret hab => exact hfg _ _ rfl rfl hab

/-- Runs that return the same are followed by the same. -/
theorem bind_eq {x y : Except Err α} {f g : α → Except Err β} (h : Together Eq x y)
    (hfg : ∀ a, x = .ok a → Together S (f a) (g a)) : Together S (x >>= f) (y >>= g) := by
  apply h.bind
  intro a b ha _ hab
  subst hab
  exact hfg a ha

theorem collect_same {f g : α → Except Err (List β)} {as : List α}
    (h : ∀ a ∈ as, Together List.Perm (f a) (g a)) :
    Together List.Perm (collect f as) (collect g as) := by
  induction as with
  | nil => exact .ret (List.Perm.refl [])
  | cons a as ih =>
    rw [List.forall_mem_cons] at h
    unfold collect
    refine h.1.bind fun bs bs' _ _ hbs => ?_
    refine (ih h.2).bind fun rest rest' _ _ hrest => ?_
    exact .ret (hbs.append hrest)

theorem collect_perm (f : α → Except Err (List β)) {as as' : List α} (h : as.Perm as') :
    Together List.Perm (collect f as) (collect f as') := by
  induction h with
  | nil => exact .ret (List.Perm.refl [])
  | @cons a as as' _ ih =>
    unfold collect
    refine (refl List.Perm.refl (f a)).bind fun bs bs' _ _ hbs => ?_
    refine ih.bind fun rest rest' _ _ hrest => ?_
    exact .ret (hbs.append hrest)
  | swap a b as =>
    simp only [collect]
    cases f b with
    | error e => cases f a with
      | error e' => exact .raise e e'
      | ok bs => exact .raise e e
    | ok bs => cases f a with
      | error e' => exact .raise e' e'
      | ok bs' => cases collect f as with
        | error e => exact .raise e e
        | ok rest =>
          refine .ret ?_
          rw [← List.append_assoc, ← List.append_assoc]
          exact List.perm_append_comm.append_right rest
  | trans _ _ ih ih' => exact ih.trans (fun _ _ _ => List.Perm.trans) ih'

/-- Steps that go together, on the same items in another order. -/
theorem collect {f g : α → Except Err (List β)} {as as' : List α} (has : as.Perm as')
    (h : ∀ a ∈ as, Together List.Perm (f a) (g a)) :
    Together List.Perm (Check.collect f as) (Check.collect g as') :=
  (collect_same h).trans (fun _ _ _ => List.Perm.trans) (collect_perm g has)

theorem each {f : α → Except Err Unit} {as as' : List α} (has : as.Perm as') :
    Together Eq (Check.each f as) (Check.each f as') := by
  have hiff : Check.each f as = .ok () ↔ Check.each f as' = .ok () := by
    rw [each_ok_iff, each_ok_iff]
    exact forall_congr' fun a => by rw [has.mem_iff]
  cases hx : Check.each f as with
  | ok u =>
    rw [hiff.mp hx]
    exact .ret rfl
  | error e => cases hy : Check.each f as' with
    | error e' => exact .raise e e'
    | ok u =>
      rw [hiff.mpr hy] at hx
      cases hx

end Together

/-! ## Aggregates that do not read the order -/

/-- `_resolve_aggregate_term_for_env`, once the filter has its matches. -/
def aggregateOf (floats : FloatOps) (kind : AggKind) (target : TermSem) (matched : List Env) :
    Except Err Resolved :=
  if kind = .count then .ok (.value (.int matched.length))
  else if matched.isEmpty then .ok (if kind = .sum then .value (.int 0) else .noValue)
  else do
    match ← targetValues target matched with
    | none => .ok .noValue
    | some values => aggregateValues floats kind values

theorem resolveAggregate_eq (ctx : EvalCtx) (kind : AggKind) (target : TermSem) (filter : Items)
    (env : Env) : resolveAggregate ctx kind target filter env =
      (runBody ctx.astGateOn filter [env] >>= aggregateOf ctx.floats kind target) := rfl

/-- What can be said of an aggregate. -/
abbrev AggPred : Type := AggKind → Option Term → List Atom → Prop

mutual

/-- Every aggregate of the term, at any depth, is `good`. -/
def EachAggTerm (good : AggPred) : Term → Prop
  | .var _ | .const _ => True
  | .agg kind target filter =>
      EachAggTarget good target ∧ EachAggAtoms good filter ∧ good kind target filter

def EachAggTarget (good : AggPred) : Option Term → Prop
  | none => True
  | some t => EachAggTerm good t

def EachAggTerms (good : AggPred) : List Term → Prop
  | [] => True
  | t :: ts => EachAggTerm good t ∧ EachAggTerms good ts

def EachAggAtom (good : AggPred) : Atom → Prop
  | .pred .. | .ruleref .. | .inn .. => True
  | .cmp _ lhs rhs => EachAggTerm good lhs ∧ EachAggTerm good rhs
  | .builtin _ args => EachAggTerms good args
  | .not body => EachAggWhere good body

def EachAggAtoms (good : AggPred) : List Atom → Prop
  | [] => True
  | a :: as => EachAggAtom good a ∧ EachAggAtoms good as

def EachAggBranches (good : AggPred) : List (List Atom) → Prop
  | [] => True
  | b :: bs => EachAggAtoms good b ∧ EachAggBranches good bs

def EachAggWhere (good : AggPred) : WhereExpr → Prop
  | .and atoms => EachAggAtoms good atoms
  | .or branches => EachAggBranches good branches

end

section

variable {good good' : AggPred}

mutual

theorem EachAggTerm.mono (h : good ≤ good') :
    ∀ t : Term, EachAggTerm good t → EachAggTerm good' t
  | .var _, _ | .const _, _ => trivial
  | .agg _ target filter, ht =>
    ⟨EachAggTarget.mono h target ht.1, EachAggAtoms.mono h filter ht.2.1, h _ _ _ ht.2.2⟩

theorem EachAggTarget.mono (h : good ≤ good') :
    ∀ t : Option Term, EachAggTarget good t → EachAggTarget good' t
  | none, _ => trivial
  | some t, ht => EachAggTerm.mono h t ht

theorem EachAggTerms.mono (h : good ≤ good') :
    ∀ ts : List Term, EachAggTerms good ts → EachAggTerms good' ts
  | [], _ => trivial
  | t :: ts, ht => ⟨EachAggTerm.mono h t ht.1, EachAggTerms.mono h ts ht.2⟩

theorem EachAggAtom.mono (h : good ≤ good') :
    ∀ a : Atom, EachAggAtom good a → EachAggAtom good' a
  | .pred _ _, _ | .ruleref _ _ _, _ | .inn _ _, _ => trivial
  | .cmp _ lhs rhs, ha => ⟨EachAggTerm.mono h lhs ha.1, EachAggTerm.mono h rhs ha.2⟩
  | .builtin _ args, ha => EachAggTerms.mono h args ha
  | .not body, ha => EachAggWhere.mono h body ha

theorem EachAggAtoms.mono (h : good ≤ good') :
    ∀ as : List Atom, EachAggAtoms good as → EachAggAtoms good' as
  | [], _ => trivial
  | a :: as, ha => ⟨EachAggAtom.mono h a ha.1, EachAggAtoms.mono h as ha.2⟩

theorem EachAggBranches.mono (h : good ≤ good') :
    ∀ bs : List (List Atom), EachAggBranches good bs → EachAggBranches good' bs
  | [], _ => trivial
  | b :: bs, hb => ⟨EachAggAtoms.mono h b hb.1, EachAggBranches.mono h bs hb.2⟩

theorem EachAggWhere.mono (h : good ≤ good') :
    ∀ w : WhereExpr, EachAggWhere good w → EachAggWhere good' w
  | .and atoms, hw => EachAggAtoms.mono h atoms hw
  | .or branches, hw => EachAggBranches.mono h branches hw

end

end

/-- The aggregate does not tell two orders of its matches apart. -/
def OrderBlind (ctx : EvalCtx) (kind : AggKind) (target : Option Term) (filter : List Atom) : Prop :=
  ∀ env matched matched', evalBody ctx filter [env] = .ok matched → matched.Perm matched' →
    Together Eq (aggregateOf ctx.floats kind (resolveTarget ctx target) matched)
      (aggregateOf ctx.floats kind (resolveTarget ctx target) matched')

/-- No aggregate of the clause tells two orders of its matches apart. -/
def RowBlindWhere (ctx : EvalCtx) (w : WhereExpr) : Prop := EachAggWhere (OrderBlind ctx) w

/-! ## Terms and atoms -/

/-- The same rows of each predicate, in some order. -/
def SameRows (v v' : ViewFacts) : Prop := ∀ p, Option.Rel List.Perm (v p) (v' p)

section

variable {ctx : EvalCtx} {v : ViewFacts}

/-- The context with the rows of another view. -/
def EvalCtx.on (ctx : EvalCtx) (v : ViewFacts) : EvalCtx := { ctx with viewFacts := v }

def TermTogether (ctx : EvalCtx) (v : ViewFacts) (t : Term) : Prop :=
  ∀ env, Together Eq (resolveEvalTerm ctx t env) (resolveEvalTerm (ctx.on v) t env)

def AtomTogether (ctx : EvalCtx) (v : ViewFacts) (a : Atom) : Prop :=
  ∀ envs envs', envs.Perm envs' → Together List.Perm (evalAtom ctx a envs) (evalAtom (ctx.on v) a envs')

theorem pred_together (hv : SameRows ctx.viewFacts v) (p : String) (ts : List Term) :
    AtomTogether ctx v (.pred p ts) := by
  intro envs envs' henvs
  show Together List.Perm (evalPredAtom ctx.viewFacts p ts envs) (evalPredAtom v p ts envs')
  unfold evalPredAtom
  have hrows := hv p
  generalize ctx.viewFacts p = rows at hrows
  generalize v p = rows' at hrows
  cases hrows with
  | none => exact .raise _ _
  | some hrows =>
    refine (Together.each hrows).bind_eq fun _ _ => .ret ?_
    apply henvs.flatMap
    intro env _
    rw [predCandidatesForEnv_eq_filter, predCandidatesForEnv_eq_filter]
    exact (hrows.filter _).filterMap _

theorem eq_together {l r : Term} (hl : TermTogether ctx v l) (hr : TermTogether ctx v r) :
    AtomTogether ctx v (.cmp .eq l r) := by
  intro envs envs' henvs
  refine Together.collect henvs fun env _ => ?_
  refine (hl env).bind_eq fun _ _ => ?_
  refine (hr env).bind_eq fun _ _ => ?_
  exact Together.refl List.Perm.refl _

theorem sides_together {l r : Term} (hl : TermTogether ctx v l) (hr : TermTogether ctx v r)
    (kind : String) (env : Env) : Together Eq
      (resolveSides ctx.astGateOn kind (l, resolveEvalTerm ctx l) (r, resolveEvalTerm ctx r) env)
      (resolveSides ctx.astGateOn kind (l, resolveEvalTerm (ctx.on v) l)
        (r, resolveEvalTerm (ctx.on v) r) env) := by
  refine (hl env).bind_eq fun _ _ => ?_
  refine (hr env).bind_eq fun _ _ => ?_
  exact Together.refl (fun _ => rfl) _

theorem ne_together {l r : Term} (hl : TermTogether ctx v l) (hr : TermTogether ctx v r) :
    AtomTogether ctx v (.cmp .ne l r) := by
  intro envs envs' henvs
  refine Together.collect henvs fun env _ => ?_
  refine (sides_together hl hr "ne" env).bind_eq fun _ _ => ?_
  exact Together.refl List.Perm.refl _

theorem cmp_together {op : CmpOp} {l r : Term} (hl : TermTogether ctx v l)
    (hr : TermTogether ctx v r) {envs envs' : List Env} (henvs : envs.Perm envs') :
    Together List.Perm
      (evalCmpAtom ctx.astGateOn op (l, resolveEvalTerm ctx l) (r, resolveEvalTerm ctx r) envs)
      (evalCmpAtom ctx.astGateOn op (l, resolveEvalTerm (ctx.on v) l)
        (r, resolveEvalTerm (ctx.on v) r) envs') := by
  refine Together.collect henvs fun env _ => ?_
  refine (sides_together hl hr op.name env).bind_eq fun _ _ => ?_
  exact Together.refl List.Perm.refl _

theorem operand_together {t : Term} (ht : TermTogether ctx v t) (kind : String) (env : Env) :
    Together Eq (requireResolvedArith ctx.astGateOn kind (t, resolveEvalTerm ctx t) env)
      (requireResolvedArith ctx.astGateOn kind (t, resolveEvalTerm (ctx.on v) t) env) := by
  refine (ht env).bind_eq fun _ _ => ?_
  exact Together.refl (fun _ => rfl) _

theorem arithResult_together {op : BuiltinOp} {args : List Term}
    (hargs : ∀ t ∈ args, TermTogether ctx v t) (env : Env) :
    Together Eq (arithResult ctx.astGateOn op (args.map fun t => (t, resolveEvalTerm ctx t)) env)
      (arithResult ctx.astGateOn op (args.map fun t => (t, resolveEvalTerm (ctx.on v) t)) env) := by
  match args with
  | [] | [_] | _ :: _ :: _ :: _ :: _ => cases op <;> exact .raise _ _
  | [z, x] =>
    have hx := operand_together (hargs x (by simp)) op.name env
    cases op with
    | add | sub | addc | mulc => exact .raise _ _
    | neg => exact hx.bind_eq fun _ _ => Together.refl (fun _ => rfl) _
  | [z, x, y] =>
    have hx := operand_together (hargs x (by simp)) op.name env
    have hy := operand_together (hargs y (by simp)) op.name env
    cases op with
    | neg => exact .raise _ _
    | addc | mulc => exact hx.bind_eq fun _ _ => Together.refl (fun _ => rfl) _
    | add | sub =>
      refine hx.bind_eq fun i _ => ?_
      cases i with
      | none => exact .ret rfl
      | some i => exact hy.bind_eq fun _ _ => Together.refl (fun _ => rfl) _

theorem arith_together {op : BuiltinOp} {args : List Term}
    (hargs : ∀ t ∈ args, TermTogether ctx v t) : AtomTogether ctx v (.builtin op args) := by
  intro envs envs' henvs
  show Together List.Perm (evalArithAtom ctx.astGateOn op (resolveEvalTerms ctx args) envs)
    (evalArithAtom ctx.astGateOn op (resolveEvalTerms (ctx.on v) args) envs')
  rw [resolveEvalTerms_map, resolveEvalTerms_map]
  refine Together.collect henvs fun env _ => ?_
  refine (arithResult_together hargs env).bind_eq fun result _ => ?_
  cases result with
  | none => exact .ret (List.Perm.refl [])
  | some result =>
    cases args with
    | nil => exact .ret (List.Perm.refl [])
    | cons z zs => exact Together.refl List.Perm.refl _

/-! ## Bodies -/

theorem mem_boundVars {envs : List Env} {x : String} :
    x ∈ boundVars envs ↔ ∃ e ∈ envs, x ∈ e.scope := by
  unfold boundVars
  induction envs with
  | nil => simp
  | cons e envs ih =>
    rw [List.foldr_cons, Finset.mem_union, ih, List.exists_mem_cons_iff]
    rfl

theorem boundVars_perm {envs envs' : List Env} (h : envs.Perm envs') :
    boundVars envs = boundVars envs' := by
  ext x
  rw [mem_boundVars, mem_boundVars]
  simp only [h.mem_iff]

/-- A body is planned, and its atoms are run in the order of the plan. -/
theorem evalBody_eq_plan (ctx : EvalCtx) (body : List Atom) (envs : List Env) :
    evalBody ctx body envs = (planBodyAtoms ctx.astGateOn id (boundVars envs) body >>= fun p =>
      runPlanned (evalItems ctx p) envs) := by
  unfold evalBody runBody
  rw [evalItems_map, planBodyAtoms_map]
  show (planBodyAtoms ctx.astGateOn id (boundVars envs) body).map _ >>= _ = _
  cases planBodyAtoms ctx.astGateOn id (boundVars envs) body with
  | error e => rfl
  | ok p =>
    show runPlanned (p.map _) envs = runPlanned (evalItems ctx p) envs
    rw [evalItems_map]

theorem runPlanned_together {as : List Atom} (has : ∀ a ∈ as, AtomTogether ctx v a)
    {envs envs' : List Env} (h : envs.Perm envs') : Together List.Perm
      (runPlanned (evalItems ctx as) envs) (runPlanned (evalItems (ctx.on v) as) envs') := by
  induction as generalizing envs envs' with
  | nil => exact .ret h
  | cons a as ih =>
    rw [List.forall_mem_cons] at has
    unfold evalItems runPlanned
    refine (has.1 envs envs' h).bind fun out out' _ _ hout => ?_
    have hempty : out.isEmpty = out'.isEmpty := by
      rw [Bool.eq_iff_iff, List.isEmpty_iff_length_eq_zero, List.isEmpty_iff_length_eq_zero,
        hout.length_eq]
    rw [hempty]
    split
    · exact .ret (List.Perm.refl [])
    · exact ih has.2 hout

/-- **A body on the same rows in another order.** -/
theorem evalBody_together {body : List Atom} (hbody : ∀ a ∈ body, AtomTogether ctx v a)
    {envs envs' : List Env} (h : envs.Perm envs') :
    Together List.Perm (evalBody ctx body envs) (evalBody (ctx.on v) body envs') := by
  rw [evalBody_eq_plan, evalBody_eq_plan, ← boundVars_perm h]
  refine (Together.refl (fun _ => rfl) _).bind_eq fun p hp => ?_
  have hperm := planBodyAtoms_perm hp
  exact runPlanned_together (fun a ha => hbody a (hperm.mem_iff.mp ha)) h

/-! ## Negation and aggregates -/

theorem existsNotBody_together {branches : List (List Atom)}
    (hbranches : ∀ b ∈ branches, ∀ a ∈ b, AtomTogether ctx v a) (env : Env) : Together Eq
      (existsNotBody ctx.astGateOn env (branches.map (evalItems ctx)))
      (existsNotBody ctx.astGateOn env (branches.map (evalItems (ctx.on v)))) := by
  induction branches with
  | nil => exact .ret rfl
  | cons b bs ih =>
    rw [List.forall_mem_cons] at hbranches
    rw [List.map_cons, List.map_cons]
    unfold existsNotBody
    refine (evalBody_together hbranches.1 (List.Perm.refl [env])).bind fun out out' _ _ hout => ?_
    have hempty : out.isEmpty = out'.isEmpty := by
      rw [Bool.eq_iff_iff, List.isEmpty_iff_length_eq_zero, List.isEmpty_iff_length_eq_zero,
        hout.length_eq]
    rw [hempty]
    split
    · exact ih hbranches.2
    · exact .ret rfl

theorem not_together {body : WhereExpr}
    (hbody : ∀ b ∈ body.branches, ∀ a ∈ b, AtomTogether ctx v a) :
    AtomTogether ctx v (.not body) := by
  intro envs envs' henvs
  show Together List.Perm (evalNotAtom ctx.astGateOn body (evalBranches ctx body) envs)
    (evalNotAtom ctx.astGateOn body (evalBranches (ctx.on v) body) envs')
  rw [evalBranches_map, evalBranches_map]
  unfold evalNotAtom
  refine (Together.refl (fun _ => rfl) (normalizeNotBody body)).bind_eq fun _ _ => ?_
  refine Together.collect henvs fun env _ => ?_
  refine (Together.refl (fun _ => rfl) _).bind_eq fun _ _ => ?_
  refine (Together.refl (fun _ => rfl) _).bind_eq fun _ _ => ?_
  refine (existsNotBody_together hbody env).bind_eq fun _ _ => ?_
  exact .ret (List.Perm.refl _)

theorem targetValues_together {target target' : TermSem}
    (h : ∀ env, Together Eq (target env) (target' env)) (envs : List Env) :
    Together Eq (targetValues target envs) (targetValues target' envs) := by
  induction envs with
  | nil => exact .ret rfl
  | cons env envs ih =>
    unfold targetValues
    refine (h env).bind_eq fun r _ => ?_
    cases r with
    | unbound | noValue => exact .ret rfl
    | value w => exact ih.bind_eq fun _ _ => .ret rfl

theorem aggregateOf_together {floats : FloatOps} {kind : AggKind} {target target' : TermSem}
    (h : ∀ env, Together Eq (target env) (target' env)) (matched : List Env) :
    Together Eq (aggregateOf floats kind target matched) (aggregateOf floats kind target' matched) := by
  unfold aggregateOf
  split
  · exact .ret rfl
  · split
    · exact .ret rfl
    · exact (targetValues_together h matched).bind_eq fun _ _ => Together.refl (fun _ => rfl) _

/-- The matches come in another order, which the aggregate does not read. -/
theorem agg_together {kind : AggKind} {target : Option Term} {filter : List Atom}
    (htarget : ∀ env, Together Eq (resolveTarget ctx target env) (resolveTarget (ctx.on v) target env))
    (hfilter : ∀ a ∈ filter, AtomTogether ctx v a)
    (hblind : OrderBlind ctx kind target filter) : TermTogether ctx v (.agg kind target filter) := by
  intro env
  unfold resolveEvalTerm
  rw [resolveAggregate_eq, resolveAggregate_eq]
  refine (evalBody_together hfilter (List.Perm.refl [env])).bind
    fun matched matched' hmatched _ hperm => ?_
  exact (hblind env matched matched' hmatched hperm).trans (fun _ _ _ => Eq.trans)
    (aggregateOf_together htarget matched')

/-! ## The induction over the syntax -/

mutual

theorem termTogether (hv : SameRows ctx.viewFacts v) :
    ∀ t : Term, EachAggTerm (OrderBlind ctx) t → TermTogether ctx v t
  | .var _, _ => fun _ => .ret rfl
  | .const _, _ => fun _ => .ret rfl
  | .agg _ target filter, h =>
    agg_together (targetTogether hv target h.1) (atomsTogether hv filter h.2.1) h.2.2

theorem targetTogether (hv : SameRows ctx.viewFacts v) :
    ∀ target : Option Term, EachAggTarget (OrderBlind ctx) target → ∀ env,
      Together Eq (resolveTarget ctx target env) (resolveTarget (ctx.on v) target env)
  | none, _ => fun _ => .ret rfl
  | some t, h => termTogether hv t h

theorem termsTogether (hv : SameRows ctx.viewFacts v) :
    ∀ ts : List Term, EachAggTerms (OrderBlind ctx) ts → ∀ t ∈ ts, TermTogether ctx v t
  | [], _ => by simp
  | t :: ts, h => List.forall_mem_cons.mpr ⟨termTogether hv t h.1, termsTogether hv ts h.2⟩

theorem atomTogether (hv : SameRows ctx.viewFacts v) :
    ∀ a : Atom, EachAggAtom (OrderBlind ctx) a → AtomTogether ctx v a
  | .pred p ts, _ => pred_together hv p ts
  | .ruleref _ _ _, _ => fun _ _ _ => .raise _ _
  | .inn _ _, _ => fun _ _ henvs => Together.collect henvs fun _ _ => Together.refl List.Perm.refl _
  | .builtin _ args, h => arith_together (termsTogether hv args h)
  | .not body, h => not_together (whereTogether hv body h)
  | .cmp op l r, h => by
    have hl := termTogether hv l h.1
    have hr := termTogether hv r h.2
    cases op with
    | eq => exact eq_together hl hr
    | ne => exact ne_together hl hr
    | gt | ge | lt | le => exact fun _ _ henvs => cmp_together hl hr henvs

theorem atomsTogether (hv : SameRows ctx.viewFacts v) :
    ∀ as : List Atom, EachAggAtoms (OrderBlind ctx) as → ∀ a ∈ as, AtomTogether ctx v a
  | [], _ => by simp
  | a :: as, h => List.forall_mem_cons.mpr ⟨atomTogether hv a h.1, atomsTogether hv as h.2⟩

theorem branchesTogether (hv : SameRows ctx.viewFacts v) :
    ∀ bs : List (List Atom), EachAggBranches (OrderBlind ctx) bs → ∀ b ∈ bs, ∀ a ∈ b, AtomTogether ctx v a
  | [], _ => by simp
  | b :: bs, h => List.forall_mem_cons.mpr ⟨atomsTogether hv b h.1, branchesTogether hv bs h.2⟩

theorem whereTogether (hv : SameRows ctx.viewFacts v) :
    ∀ w : WhereExpr, EachAggWhere (OrderBlind ctx) w → ∀ b ∈ w.branches, ∀ a ∈ b, AtomTogether ctx v a
  | .and as, h => by
    unfold WhereExpr.branches
    rw [List.forall_mem_singleton]
    exact atomsTogether hv as h
  | .or bs, h => branchesTogether hv bs h

end

/-! ## A clause -/

/-- Two lists of bindings that hold the same bindings, as Python compares them. -/
def SameAnswer (out out' : List Env) : Prop :=
  (∀ e ∈ out, ∃ e' ∈ out', seenKey e' = seenKey e) ∧ ∀ e ∈ out', ∃ e' ∈ out, seenKey e' = seenKey e

theorem keyLt?_congr {ps ps' qs qs' : List (String × Value)}
    (hp : ps.map (fun p => (p.1, p.2.canon)) = ps'.map fun p => (p.1, p.2.canon))
    (hq : qs.map (fun p => (p.1, p.2.canon)) = qs'.map fun p => (p.1, p.2.canon)) :
    keyLt? ps qs = keyLt? ps' qs' := by
  induction ps generalizing ps' qs qs' with
  | nil =>
    obtain rfl := List.map_eq_nil_iff.mp hp.symm
    cases qs with
    | nil =>
      obtain rfl := List.map_eq_nil_iff.mp hq.symm
      rfl
    | cons q qs => cases qs' with
      | nil => cases hq
      | cons q' qs' => rfl
  | cons p ps ih =>
    cases ps' with
    | nil => cases hp
    | cons p' ps' =>
      rw [List.map_cons, List.map_cons, List.cons.injEq, Prod.mk.injEq] at hp
      obtain ⟨⟨hname, hvalue⟩, hps⟩ := hp
      cases qs with
      | nil =>
        obtain rfl := List.map_eq_nil_iff.mp hq.symm
        rfl
      | cons q qs => cases qs' with
        | nil => cases hq
        | cons q' qs' =>
          rw [List.map_cons, List.map_cons, List.cons.injEq, Prod.mk.injEq] at hq
          obtain ⟨⟨hname', hvalue'⟩, hqs⟩ := hq
          unfold keyLt?
          rw [hname, hname', Value.lt?_congr hvalue hvalue', ih hps hqs]
          unfold Value.eqv
          rw [hvalue, hvalue']

theorem SameAnswer.symm {out out' : List Env} (h : SameAnswer out out') : SameAnswer out' out :=
  ⟨h.2, h.1⟩

/-- The sort raises on one list if it does on the other. -/
theorem sortBindings_together {out out' : List Env} (h : SameAnswer out out') :
    Together SameAnswer (sortBindings out) (sortBindings out') := by
  have ordered : ∀ {out out' : List Env}, SameAnswer out out' →
      (out.all fun e => out.all fun e' => (keyLt? (bindingKey e) (bindingKey e')).isSome) = true →
      (out'.all fun e => out'.all fun e' => (keyLt? (bindingKey e) (bindingKey e')).isSome) =
        true := by
    intro out out' h hout
    simp only [List.all_eq_true] at hout ⊢
    intro e he e' he'
    obtain ⟨f, hf, hef⟩ := h.2 e he
    obtain ⟨f', hf', hef'⟩ := h.2 e' he'
    rw [← keyLt?_congr hef hef']
    exact hout f hf f' hf'
  have sorted : ∀ out : List Env, SameAnswer out
      (out.insertionSort fun e e' => keyLt? (bindingKey e') (bindingKey e) ≠ some true) := by
    intro out
    have hperm := List.perm_insertionSort
      (fun e e' : Env => keyLt? (bindingKey e') (bindingKey e) ≠ some true) out
    exact ⟨fun e he => ⟨e, hperm.mem_iff.mpr he, rfl⟩, fun e he => ⟨e, hperm.mem_iff.mp he, rfl⟩⟩
  unfold sortBindings
  by_cases hout : (out.all fun e => out.all fun e' =>
      (keyLt? (bindingKey e) (bindingKey e')).isSome) = true
  · rw [if_pos hout, if_pos (ordered h hout)]
    refine .ret ⟨?_, ?_⟩
    · intro e he
      obtain ⟨f, hf, hef⟩ := (sorted out).2 e he
      obtain ⟨g, hg, hfg⟩ := h.1 f hf
      obtain ⟨k, hk, hgk⟩ := (sorted out').1 g hg
      exact ⟨k, hk, hgk.trans (hfg.trans hef)⟩
    · intro e he
      obtain ⟨f, hf, hef⟩ := (sorted out').2 e he
      obtain ⟨g, hg, hfg⟩ := h.2 f hf
      obtain ⟨k, hk, hgk⟩ := (sorted out).1 g hg
      exact ⟨k, hk, hgk.trans (hfg.trans hef)⟩
  · rw [if_neg hout, if_neg fun hout' => hout (ordered h.symm hout')]
    exact .raise _ _

theorem sameAnswer_dedup {out out' : List Env} (h : out.Perm out') :
    SameAnswer (dedupBindings out) (dedupBindings out') := by
  have half : ∀ {out out' : List Env}, out.Perm out' →
      ∀ e ∈ dedupBindings out, ∃ e' ∈ dedupBindings out', seenKey e' = seenKey e := by
    intro out out' h e he
    obtain ⟨hsub, -, -⟩ := dedupBindings_spec out
    obtain ⟨-, hcover, -⟩ := dedupBindings_spec out'
    exact hcover e (h.mem_iff.mp (hsub e he))
  exact ⟨half h, half h.symm⟩

/-- **A clause on the same rows in another order** raises on both views, or has the same answer on
both. -/
theorem evaluateWhere_together (hv : SameRows ctx.viewFacts v) {w : WhereExpr}
    (hw : RowBlindWhere ctx w) :
    Together SameAnswer (evaluateWhere ctx w) (evaluateWhere (ctx.on v) w) := by
  unfold evaluateWhere
  refine (Together.refl (fun _ => rfl) (whereAstGate ctx.astGateOn w)).bind_eq fun _ _ => ?_
  refine (Together.refl (fun _ => rfl) (normalizeWhere w)).bind_eq fun _ _ => ?_
  have hbindings : Together List.Perm (evalBranchBindings ctx w) (evalBranchBindings (ctx.on v) w) :=
    Together.collect (List.Perm.refl _) fun b hb =>
      evalBody_together (whereTogether hv w hw b hb) (List.Perm.refl _)
  exact hbindings.bind fun out out' _ _ hperm => sortBindings_together (sameAnswer_dedup hperm)

end

end FactGraph.Rules
