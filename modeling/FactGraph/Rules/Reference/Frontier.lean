import FactGraph.Rules.Reference.Substrate
import FactGraph.Rules.Runs

/-!
# `frontier.py`

`evaluate_native_where_frontier` evaluates a clause once more, with a loop of its own over the atoms
of a body, and reports for each branch without a binding the atom at which it ran dry.

The loop calls `_eval_ne_atom` and `_eval_cmp_atom` without the view they take first, so Python
raises a `TypeError` as soon as a branch comes to such an atom (`evalAtomFrontier`). Up to there the
two loops do the same, and what is reported is right: `frontierAgrees_iff` is the exact extent of
the damage.
-/

namespace FactGraph.Rules

open Check

/-! ## What is reported -/

inductive FrontierFailureKind where
  | emptyInput | atomFilterEmpty
  deriving DecidableEq, Repr

/-- The checks of `__post_init__` are the last three fields. -/
structure NativeWhereFrontierRow where
  caseIndex : Nat
  failedAtomIndex : Nat
  atomsSatisfied : Nat
  frontierCount : Nat
  failureKind : FrontierFailureKind
  satisfied_eq : atomsSatisfied = failedAtomIndex
  count_eq_zero : failureKind = .emptyInput → frontierCount = 0
  count_pos : failureKind = .atomFilterEmpty → 0 < frontierCount

/-- The row of `_eval_body_frontier`. -/
def frontierRow (caseIndex conditionIndex frontierCount : Nat) : NativeWhereFrontierRow where
  caseIndex := caseIndex
  failedAtomIndex := conditionIndex
  atomsSatisfied := conditionIndex
  frontierCount := frontierCount
  failureKind := if frontierCount = 0 then .emptyInput else .atomFilterEmpty
  satisfied_eq := rfl
  count_eq_zero h := by
    by_contra hne
    simp [hne] at h
  count_pos h := by
    by_contra hle
    simp [Nat.eq_zero_of_not_pos hle] at h

structure NativeWhereFrontierEvaluation extends NativeWhereEvaluation where
  frontierRows : List NativeWhereFrontierRow

/-! ## The second loop -/

/-- The dispatch of `_eval_body_frontier`. The calls for `ne` and for the four comparisons lack an
argument. -/
def evalAtomFrontier (ctx : EvalCtx) : Atom → AtomSem
  | .cmp .ne _ _ => fun _ =>
      .error (.typeError "_eval_ne_atom() missing 1 required positional argument: 'atom'")
  | .cmp .gt _ _ | .cmp .ge _ _ | .cmp .lt _ _ | .cmp .le _ _ => fun _ =>
      .error (.typeError "_eval_cmp_atom() missing 1 required positional argument: 'atom'")
  | atom => evalAtom ctx atom

/-- The loop of `_eval_body_frontier`, from position `conditionIndex` on. -/
def evalPlannedFrontier (ctx : EvalCtx) (caseIndex : Nat) :
    Nat → List Atom → List Env → Except Err (List Env × Option NativeWhereFrontierRow)
  | _, [], envs => .ok (envs, none)
  | conditionIndex, atom :: rest, envs => do
      let envs' ← evalAtomFrontier ctx atom envs
      if envs'.isEmpty then .ok ([], some (frontierRow caseIndex conditionIndex envs.length))
      else evalPlannedFrontier ctx caseIndex (conditionIndex + 1) rest envs'

/-- `_eval_body_frontier`. -/
def evalBodyFrontier (ctx : EvalCtx) (caseIndex : Nat) (body : List Atom) :
    Except Err (List Env × Option NativeWhereFrontierRow) := do
  let planned ← planBodyAtoms ctx.astGateOn id ∅ body
  evalPlannedFrontier ctx caseIndex 0 planned [[]]

/-- The loop over the branches. -/
def evalBodiesFrontier (ctx : EvalCtx) :
    Nat → List (List Atom) → Except Err (List Env × List NativeWhereFrontierRow)
  | _, [] => .ok ([], [])
  | caseIndex, body :: rest => do
      let (bindings, row) ← evalBodyFrontier ctx caseIndex body
      let (bindings', rows) ← evalBodiesFrontier ctx (caseIndex + 1) rest
      .ok (bindings ++ bindings', row.toList ++ rows)

/-- `_evaluate_where_frontier`. -/
def evaluateWhereFrontier (ctx : EvalCtx) (w : WhereExpr) :
    Except Err (List Env × List NativeWhereFrontierRow) := do
  whereAstGate ctx.astGateOn w
  normalizeWhere w
  let (bindings, rows) ← evalBodiesFrontier ctx 0 w.branches
  let bindings ← sortBindings (dedupBindings bindings)
  .ok (bindings, rows)

/-- `evaluate_native_where_frontier`. -/
def evaluateNativeWhereFrontier (py : PyOps) (ctx : EvalCtx) (registry : Option RuleRegistry)
    (clause : WhereExpr) : Except Err NativeWhereFrontierEvaluation := do
  let (prepared, _) ←
    prepareNativeWhere py ctx registry (evaluateReferenced py ctx registry) clause []
  let (bindings, rows) ← evaluateWhereFrontier prepared.ctx prepared.clause
  .ok ⟨⟨bindings, ruleRefIds prepared.resolutions, prepared.resolutions⟩, rows⟩

/-! ## Where the loops part -/

/-- The atoms the second loop cannot evaluate. -/
def Atom.unhandled : Atom → Bool
  | .cmp op _ _ => op ≠ .eq
  | .pred .. | .ruleref .. | .inn .. | .builtin .. | .not _ => false

/-- Some environment comes to an atom that the second loop cannot evaluate. -/
def ReachesUnhandled (ctx : EvalCtx) (planned : List Atom) (envs : List Env) : Prop :=
  ∃ before atom after mid, planned = before ++ atom :: after ∧ atom.unhandled = true ∧
    runPlanned (evalItems ctx before) envs = .ok mid ∧ mid ≠ []

/-- The same, of a branch from its start. -/
def BranchReachesUnhandled (ctx : EvalCtx) (body : List Atom) : Prop :=
  ∃ planned, planBodyAtoms ctx.astGateOn id ∅ body = .ok planned ∧
    ReachesUnhandled ctx planned [[]]

variable {ctx : EvalCtx}

theorem evalAtomFrontier_of_handled {atom : Atom} (h : atom.unhandled = false) :
    evalAtomFrontier ctx atom = evalAtom ctx atom := by
  cases atom with
  | pred _ _ | ruleref _ _ _ | inn _ _ | builtin _ _ | not _ => rfl
  | cmp op _ _ => cases op <;> first | rfl | cases h

theorem evalAtomFrontier_of_unhandled {atom : Atom} (h : atom.unhandled = true) (envs : List Env) :
    ∃ e, evalAtomFrontier ctx atom envs = .error e := by
  cases atom with
  | pred _ _ | ruleref _ _ _ | inn _ _ | builtin _ _ | not _ => cases h
  | cmp op _ _ => cases op <;> first | exact ⟨_, rfl⟩ | cases h

theorem reaches_head {atom : Atom} {rest : List Atom} {envs : List Env} (henvs : envs ≠ [])
    (h : atom.unhandled = true) : ReachesUnhandled ctx (atom :: rest) envs :=
  ⟨[], atom, rest, envs, rfl, h, rfl, henvs⟩

/-- Past an atom both loops evaluate, what is reached is what the rest reaches. -/
theorem reaches_cons_iff {atom : Atom} {rest : List Atom} {envs envs' : List Env}
    (h : atom.unhandled = false) (hstep : evalAtom ctx atom envs = .ok envs') :
    ReachesUnhandled ctx (atom :: rest) envs ↔ envs' ≠ [] ∧ ReachesUnhandled ctx rest envs' := by
  constructor
  · rintro ⟨before, a, after, mid, hsplit, ha, hrun, hmid⟩
    cases before with
    | nil =>
      obtain ⟨rfl, -⟩ := List.cons.inj hsplit
      rw [h] at ha
      cases ha
    | cons b before =>
      obtain ⟨rfl, rfl⟩ := List.cons.inj hsplit
      simp only [evalItems, runPlanned, hstep, ok_bind] at hrun
      split at hrun
      · rw [Except.ok.injEq] at hrun
        exact absurd hrun.symm hmid
      · next hne =>
        exact ⟨fun heq => hne (by simp [heq]), before, a, after, mid, rfl, ha, hrun, hmid⟩
  · rintro ⟨hne, before, a, after, mid, rfl, ha, hrun, hmid⟩
    refine ⟨atom :: before, a, after, mid, rfl, ha, ?_, hmid⟩
    simp [evalItems, runPlanned, hstep, hne, hrun]

/-- **The second loop** returns what the first does, and a row exactly when that is nothing, as
long as it does not come to an atom it cannot evaluate. -/
theorem evalPlannedFrontier_ok_iff {c i : Nat} {planned : List Atom} {envs out : List Env}
    (henvs : envs ≠ []) : (∃ row, evalPlannedFrontier ctx c i planned envs = .ok (out, row)) ↔
      runPlanned (evalItems ctx planned) envs = .ok out ∧ ¬ ReachesUnhandled ctx planned envs := by
  induction planned generalizing i envs with
  | nil =>
    simp only [evalPlannedFrontier, evalItems, runPlanned, Except.ok.injEq, Prod.mk.injEq]
    constructor
    · rintro ⟨_, rfl, -⟩
      refine ⟨rfl, ?_⟩
      rintro ⟨before, a, after, mid, hsplit, -⟩
      cases before <;> cases hsplit
    · rintro ⟨rfl, -⟩
      exact ⟨none, rfl, rfl⟩
  | cons atom rest ih =>
    cases hkind : atom.unhandled with
    | true =>
      obtain ⟨e, he⟩ := @evalAtomFrontier_of_unhandled ctx atom hkind envs
      simp only [evalPlannedFrontier, he, error_bind, reduceCtorEq, exists_false, false_iff,
        not_and, not_not]
      exact fun _ => reaches_head henvs hkind
    | false =>
      simp only [evalPlannedFrontier, evalAtomFrontier_of_handled hkind, evalItems, runPlanned]
      cases hstep : evalAtom ctx atom envs with
      | error e => simp
      | ok envs' =>
        simp only [ok_bind, reaches_cons_iff hkind hstep]
        cases hempty : envs'.isEmpty with
        | true => simp [List.isEmpty_iff.mp hempty, eq_comm]
        | false =>
          have hne : envs' ≠ [] := by simpa using hempty
          simpa [hne] using ih hne

theorem evalPlannedFrontier_row {c i : Nat} {planned : List Atom} {envs out : List Env}
    {row : Option NativeWhereFrontierRow} (henvs : envs ≠ [])
    (h : evalPlannedFrontier ctx c i planned envs = .ok (out, row)) :
    (∀ r ∈ row, r.caseIndex = c) ∧ (row.isSome ↔ out = []) := by
  induction planned generalizing i envs with
  | nil =>
    simp only [evalPlannedFrontier, Except.ok.injEq, Prod.mk.injEq] at h
    obtain ⟨rfl, rfl⟩ := h
    simpa using henvs
  | cons atom rest ih =>
    simp only [evalPlannedFrontier, bind_ok_iff] at h
    obtain ⟨envs', -, h⟩ := h
    split at h
    · simp only [Except.ok.injEq, Prod.mk.injEq] at h
      obtain ⟨rfl, rfl⟩ := h
      simp [frontierRow]
    · next hne => exact ih (fun heq => hne (by simp [heq])) h

/-! ## Branches -/

/-- What a report says of the branches from position `c` on: the branches without a binding, in
order, each once. -/
structure Reports (ctx : EvalCtx) (c : Nat) (branches : List (List Atom))
    (rows : List NativeWhereFrontierRow) : Prop where
  increasing : (rows.map NativeWhereFrontierRow.caseIndex).Pairwise (· < ·)
  exact : ∀ j, (∃ row ∈ rows, row.caseIndex = j) ↔
    ∃ i b, j = c + i ∧ branches[i]? = some b ∧ evalBody ctx b [[]] = .ok []

theorem evalBody_start_ok_iff {body : List Atom} {out : List Env} :
    evalBody ctx body [[]] = .ok out ↔ ∃ p, planBodyAtoms ctx.astGateOn id ∅ body = .ok p ∧
      runPlanned (evalItems ctx p) [[]] = .ok out := by
  rw [evalBody_ok_iff, boundVars_singleton]
  rfl

theorem evalBodyFrontier_ok {c : Nat} {body : List Atom} {out : List Env}
    {row : Option NativeWhereFrontierRow} (h : evalBodyFrontier ctx c body = .ok (out, row)) :
    evalBody ctx body [[]] = .ok out ∧ ¬ BranchReachesUnhandled ctx body ∧
      (∀ r ∈ row, r.caseIndex = c) ∧ (row.isSome ↔ out = []) := by
  simp only [evalBodyFrontier, bind_ok_iff] at h
  obtain ⟨p, hp, h⟩ := h
  obtain ⟨hrun, hreach⟩ := (evalPlannedFrontier_ok_iff (by simp)).mp ⟨row, h⟩
  refine ⟨evalBody_start_ok_iff.mpr ⟨p, hp, hrun⟩, ?_, evalPlannedFrontier_row (by simp) h⟩
  rintro ⟨p', hp', hreach'⟩
  obtain rfl : p = p' := Except.ok.inj (hp.symm.trans hp')
  exact hreach hreach'

theorem exists_evalBodyFrontier {c : Nat} {body : List Atom} {out : List Env}
    (h : evalBody ctx body [[]] = .ok out) (hreach : ¬ BranchReachesUnhandled ctx body) :
    ∃ row, evalBodyFrontier ctx c body = .ok (out, row) := by
  obtain ⟨p, hp, hrun⟩ := evalBody_start_ok_iff.mp h
  have hnot : ¬ ReachesUnhandled ctx p [[]] := fun hreach' => hreach ⟨p, hp, hreach'⟩
  obtain ⟨row, hrow⟩ := (@evalPlannedFrontier_ok_iff ctx c 0 p [[]] out (by simp)).mpr ⟨hrun, hnot⟩
  exact ⟨row, by simp [evalBodyFrontier, hp, hrow]⟩

theorem Reports.nil {c : Nat} : Reports ctx c [] [] := ⟨.nil, by simp⟩

theorem Reports.cons {c : Nat} {body : List Atom} {branches : List (List Atom)} {out : List Env}
    {row : Option NativeWhereFrontierRow} {rows : List NativeWhereFrontierRow}
    (hbody : evalBody ctx body [[]] = .ok out) (hcase : ∀ r ∈ row, r.caseIndex = c)
    (hrow : row.isSome ↔ out = []) (h : Reports ctx (c + 1) branches rows) :
    Reports ctx c (body :: branches) (row.toList ++ rows) := by
  have hlater : ∀ r ∈ rows, c < r.caseIndex := by
    intro r hr
    obtain ⟨i, -, heq, -⟩ := (h.exact r.caseIndex).mp ⟨r, hr, rfl⟩
    omega
  constructor
  · cases row with
    | none => simpa using h.increasing
    | some r =>
      simp only [Option.toList_some, List.cons_append, List.nil_append, List.map_cons,
        List.pairwise_cons, List.forall_mem_map]
      exact ⟨fun r' hr' => (hcase r rfl).symm ▸ hlater r' hr', h.increasing⟩
  · intro j
    simp only [List.mem_append, Option.mem_toList, or_and_right, exists_or, h.exact]
    constructor
    · rintro (⟨r, hr, rfl⟩ | ⟨i, b, rfl, hb, hempty⟩)
      · rw [hcase r hr]
        have hout : out = [] := hrow.mp (by simp [hr])
        exact ⟨0, body, rfl, rfl, hout ▸ hbody⟩
      · exact ⟨i + 1, b, by omega, hb, hempty⟩
    · rintro ⟨i, b, rfl, hb, hempty⟩
      cases i with
      | zero =>
        obtain rfl : body = b := Option.some.inj hb
        obtain rfl : out = [] := Except.ok.inj (hbody.symm.trans hempty)
        obtain ⟨r, hr⟩ := Option.isSome_iff_exists.mp (hrow.mpr rfl)
        exact Or.inl ⟨r, hr, hcase r hr⟩
      | succ i => exact Or.inr ⟨i, b, by omega, hb, hempty⟩

theorem evalBodiesFrontier_ok {c : Nat} {branches : List (List Atom)} {out : List Env}
    {rows : List NativeWhereFrontierRow} (h : evalBodiesFrontier ctx c branches = .ok (out, rows)) :
    collect (fun b => evalBody ctx b [[]]) branches = .ok out ∧
      (∀ b ∈ branches, ¬ BranchReachesUnhandled ctx b) ∧ Reports ctx c branches rows := by
  induction branches generalizing c out rows with
  | nil =>
    simp only [evalBodiesFrontier, Except.ok.injEq, Prod.mk.injEq] at h
    obtain ⟨rfl, rfl⟩ := h
    exact ⟨rfl, by simp, .nil⟩
  | cons body branches ih =>
    simp only [evalBodiesFrontier, bind_ok_iff, Except.ok.injEq, Prod.mk.injEq] at h
    obtain ⟨⟨bindings, row⟩, hbody, ⟨bindings', rows'⟩, hrest, rfl, rfl⟩ := h
    obtain ⟨heval, hreach, hcase, hrow⟩ := evalBodyFrontier_ok hbody
    obtain ⟨hcollect, hreaches, hreports⟩ := ih hrest
    refine ⟨by simp [collect, heval, hcollect], ?_, hreports.cons heval hcase hrow⟩
    exact List.forall_mem_cons.mpr ⟨hreach, hreaches⟩

theorem exists_evalBodiesFrontier {c : Nat} {branches : List (List Atom)} {out : List Env}
    (h : collect (fun b => evalBody ctx b [[]]) branches = .ok out)
    (hreach : ∀ b ∈ branches, ¬ BranchReachesUnhandled ctx b) :
    ∃ rows, evalBodiesFrontier ctx c branches = .ok (out, rows) := by
  induction branches generalizing c out with
  | nil =>
    simp only [collect, Except.ok.injEq] at h
    exact ⟨[], by simp [evalBodiesFrontier, h]⟩
  | cons body branches ih =>
    rw [List.forall_mem_cons] at hreach
    simp only [collect, bind_ok_iff, Except.ok.injEq] at h
    obtain ⟨bindings, hbody, bindings', hrest, rfl⟩ := h
    obtain ⟨row, hrow⟩ := @exists_evalBodyFrontier ctx c body bindings hbody hreach.1
    obtain ⟨rows, hrows⟩ := @ih (c + 1) bindings' hrest hreach.2
    exact ⟨row.toList ++ rows, by simp [evalBodiesFrontier, hrow, hrows]⟩

/-! ## A clause -/

/-- **The second evaluator** on a clause: the bindings of the first, or an exception. -/
theorem evaluateWhereFrontier_ok {w : WhereExpr} {out : List Env}
    {rows : List NativeWhereFrontierRow} (h : evaluateWhereFrontier ctx w = .ok (out, rows)) :
    evaluateWhere ctx w = .ok out ∧ (∀ b ∈ w.branches, ¬ BranchReachesUnhandled ctx b) ∧
      Reports ctx 0 w.branches rows := by
  simp only [evaluateWhereFrontier, bind_unit_ok_iff] at h
  obtain ⟨hgate, hnorm, h⟩ := h
  simp only [bind_ok_iff, Except.ok.injEq, Prod.mk.injEq] at h
  obtain ⟨⟨bindings, rows'⟩, hbodies, sorted, hsorted, rfl, rfl⟩ := h
  obtain ⟨hcollect, hreach, hreports⟩ := evalBodiesFrontier_ok hbodies
  refine ⟨?_, hreach, hreports⟩
  simp [evaluateWhere, evalBranchBindings, hgate, hnorm, hcollect, hsorted]

theorem exists_evaluateWhereFrontier {w : WhereExpr} {out : List Env}
    (h : evaluateWhere ctx w = .ok out)
    (hreach : ∀ b ∈ w.branches, ¬ BranchReachesUnhandled ctx b) :
    ∃ rows, evaluateWhereFrontier ctx w = .ok (out, rows) := by
  simp only [evaluateWhere, bind_unit_ok_iff] at h
  obtain ⟨hgate, hnorm, h⟩ := h
  rw [bind_ok_iff] at h
  obtain ⟨bindings, hcollect, hsorted⟩ := h
  obtain ⟨rows, hbodies⟩ := @exists_evalBodiesFrontier ctx 0 _ _ hcollect hreach
  exact ⟨rows, by simp [evaluateWhereFrontier, hgate, hnorm, hbodies, hsorted]⟩

/-! ## The result -/

section

variable {py : PyOps} {registry : Option RuleRegistry} {clause : WhereExpr}

/-- What the evaluations come to before they part: a view and a clause without references. -/
def Prepares (py : PyOps) (ctx : EvalCtx) (registry : Option RuleRegistry) (clause : WhereExpr)
    (prepared : PreparedWhere) : Prop :=
  ∃ memo, prepareNativeWhere py ctx registry (evaluateReferenced py ctx registry) clause [] =
    .ok (prepared, memo)

/-- The frontier evaluation returns what the native one does, whenever either returns, and reports
the branches without a binding. -/
structure FrontierAgrees (py : PyOps) (ctx : EvalCtx) (registry : Option RuleRegistry)
    (clause : WhereExpr) : Prop where
  sound : ∀ f, evaluateNativeWhereFrontier py ctx registry clause = .ok f →
    evaluateNativeWhere py ctx registry clause = .ok f.toNativeWhereEvaluation
  complete : ∀ n, evaluateNativeWhere py ctx registry clause = .ok n →
    ∃ f, evaluateNativeWhereFrontier py ctx registry clause = .ok f ∧
      f.toNativeWhereEvaluation = n
  reports : ∀ f prepared, evaluateNativeWhereFrontier py ctx registry clause = .ok f →
    Prepares py ctx registry clause prepared →
      Reports prepared.ctx 0 prepared.clause.branches f.frontierRows

theorem evaluateNativeWhere_ok_iff {n : NativeWhereEvaluation} :
    evaluateNativeWhere py ctx registry clause = .ok n ↔
      ∃ prepared, Prepares py ctx registry clause prepared ∧
        ∃ bindings, evaluateWhere prepared.ctx prepared.clause = .ok bindings ∧
          n = ⟨bindings, ruleRefIds prepared.resolutions, prepared.resolutions⟩ := by
  simp only [evaluateNativeWhere, evaluateNativeWhereInternal, bind_ok_iff, Except.ok.injEq,
    Prepares]
  constructor
  · rintro ⟨⟨n', memo⟩, ⟨⟨prepared, memo'⟩, hprepare, bindings, hbindings, hn⟩, rfl⟩
    obtain ⟨rfl, rfl⟩ := Prod.mk.inj hn
    exact ⟨prepared, ⟨memo', hprepare⟩, bindings, hbindings, rfl⟩
  · rintro ⟨prepared, ⟨memo, hprepare⟩, bindings, hbindings, rfl⟩
    exact ⟨(_, memo), ⟨(prepared, memo), hprepare, bindings, hbindings, rfl⟩, rfl⟩

theorem evaluateNativeWhereFrontier_ok_iff {f : NativeWhereFrontierEvaluation} :
    evaluateNativeWhereFrontier py ctx registry clause = .ok f ↔
      ∃ prepared, Prepares py ctx registry clause prepared ∧
        ∃ bindings rows, evaluateWhereFrontier prepared.ctx prepared.clause = .ok (bindings, rows) ∧
          f = ⟨⟨bindings, ruleRefIds prepared.resolutions, prepared.resolutions⟩, rows⟩ := by
  simp only [evaluateNativeWhereFrontier, bind_ok_iff, Except.ok.injEq, Prepares]
  constructor
  · rintro ⟨⟨prepared, memo⟩, hprepare, ⟨bindings, rows⟩, hbindings, rfl⟩
    exact ⟨prepared, ⟨memo, hprepare⟩, bindings, rows, hbindings, rfl⟩
  · rintro ⟨prepared, ⟨memo, hprepare⟩, bindings, rows, hbindings, rfl⟩
    exact ⟨(prepared, memo), hprepare, (bindings, rows), hbindings, rfl⟩

theorem Prepares.unique {p q : PreparedWhere} (hp : Prepares py ctx registry clause p)
    (hq : Prepares py ctx registry clause q) : p = q := by
  obtain ⟨memo, hp⟩ := hp
  obtain ⟨memo', hq⟩ := hq
  exact (Prod.mk.inj (Except.ok.inj (hp.symm.trans hq))).1

/-- **The frontier evaluation agrees with the native one exactly when** the native one raises, or no
branch comes to an `ne`, `gt`, `ge`, `lt` or `le` atom with an environment left. Both are called
without `witness_facts`. -/
theorem frontierAgrees_iff : FrontierAgrees py ctx registry clause ↔
    ∀ n prepared, evaluateNativeWhere py ctx registry clause = .ok n →
      Prepares py ctx registry clause prepared →
        ∀ b ∈ prepared.clause.branches, ¬ BranchReachesUnhandled prepared.ctx b := by
  constructor
  · intro h n prepared hn hprepared
    obtain ⟨f, hf, -⟩ := h.complete n hn
    obtain ⟨prepared', hprepared', bindings, rows, hrows, -⟩ :=
      evaluateNativeWhereFrontier_ok_iff.mp hf
    obtain rfl := hprepared.unique hprepared'
    exact (evaluateWhereFrontier_ok hrows).2.1
  · intro h
    refine ⟨fun f hf => ?_, fun n hn => ?_, fun f prepared hf hprepared => ?_⟩
    · obtain ⟨prepared, hprepared, bindings, rows, hrows, rfl⟩ :=
        evaluateNativeWhereFrontier_ok_iff.mp hf
      exact evaluateNativeWhere_ok_iff.mpr
        ⟨prepared, hprepared, bindings, (evaluateWhereFrontier_ok hrows).1, rfl⟩
    · obtain ⟨prepared, hprepared, bindings, hbindings, rfl⟩ := evaluateNativeWhere_ok_iff.mp hn
      obtain ⟨rows, hrows⟩ := exists_evaluateWhereFrontier hbindings (h _ prepared hn hprepared)
      exact ⟨_, evaluateNativeWhereFrontier_ok_iff.mpr
        ⟨prepared, hprepared, bindings, rows, hrows, rfl⟩, rfl⟩
    · obtain ⟨prepared', hprepared', bindings, rows, hrows, rfl⟩ :=
        evaluateNativeWhereFrontier_ok_iff.mp hf
      obtain rfl := hprepared.unique hprepared'
      exact (evaluateWhereFrontier_ok hrows).2.2

end

/-- `("p", "$x"), ("ne", "$x", 1)` on the row `(2,)`: the native evaluation binds `$x`, the frontier
evaluation raises a `TypeError`. -/
theorem frontier_not_agrees :
    let clause : WhereExpr := .and [.pred "p" [.var "$x"], .cmp .ne (.var "$x") (.const (.int 1))]
    validateWhereAst .noRuleref clause = .ok () ∧
      ¬ FrontierAgrees .ascii (oneRow "p" [.int 2]) none clause := by
  intro clause
  refine ⟨by decide, fun h => ?_⟩
  have hprepared : Prepares .ascii (oneRow "p" [.int 2]) none clause
      ⟨oneRow "p" [.int 2], clause, []⟩ := ⟨[], rfl⟩
  obtain ⟨f, hf, -⟩ := h.complete _
    (evaluateNativeWhere_ok_iff.mpr ⟨_, hprepared, [[("$x", .int 2)]], by decide, rfl⟩)
  obtain ⟨prepared, hprepared', bindings, rows, hrows, -⟩ :=
    evaluateNativeWhereFrontier_ok_iff.mp hf
  obtain rfl := hprepared.unique hprepared'
  -- the row of `p` comes to the `ne`
  refine (evaluateWhereFrontier_ok hrows).2.1 _ (List.mem_singleton_self _) ?_
  exact ⟨_, rfl, [.pred "p" [.var "$x"]], _, [], [[("$x", .int 2)]], rfl, rfl, rfl, by simp⟩

end FactGraph.Rules
