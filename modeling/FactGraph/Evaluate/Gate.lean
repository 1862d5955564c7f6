import Mathlib.Algebra.Group.Action.Defs
import FactGraph.Evaluate.Growth
import FactGraph.Rules.Runs

/-!
# The work gate

What the price of a clause bounds. An atom makes at most its factor of environments out of one
(`evalAtom_length`), so the environments alive after some atoms of a body are at most the product of
their factors, whatever order the plan puts them in; and the price of a body inside a `not` or an
aggregate is a factor of the price of the clause.

**A clause within the limit never has more environments alive than its estimate, nor more bindings, and
more facts, rows or atoms never make a bundle cheaper** (`work_gate_sound`).
-/

namespace FactGraph.Evaluate

open Rules Check

/-! ## Bodies -/

/-- The bodies that an evaluation of a clause runs: its branches, the branches under a `not`, and the
filter of an aggregate. -/
inductive Runs (w : WhereExpr) : List Atom → Prop
  | branch {body : List Atom} : body ∈ w.branches → Runs w body
  | negated {outer body : List Atom} {inner : WhereExpr} :
      Runs w outer → .not inner ∈ outer → body ∈ inner.branches → Runs w body
  | filter {outer body : List Atom} {atom : Atom} {kind : AggKind} {target : Option Term} :
      Runs w outer → atom ∈ outer → .agg kind target body ∈ evaluatedTerms atom → Runs w body

section Bodies

variable {counts : List (String × Nat)}

/-- A factor of a product within the limit is no more than the product. -/
theorem le_of_cutOff_prod {fs : List Nat} (hpos : ∀ f ∈ fs, 1 ≤ f) {n : Nat} (hn : n = cutOff fs.prod)
    (hlimit : n ≤ maxWork) {f : Nat} (hf : f ∈ fs) : f ≤ n := by
  rw [hn] at hlimit
  rw [hn]
  unfold cutOff at hlimit ⊢
  rw [Saturating.cut_of_le hlimit]
  exact Saturating.le_prod_of_mem hpos hf

theorem estimate_of_branch {w : WhereExpr} {n : Nat} (h : estimateExpression counts w = .ok n)
    (hlimit : n ≤ maxWork) {body : List Atom} (hbody : body ∈ w.branches) :
    ∃ m, estimateAtoms counts 1 body = .ok m ∧ m ≤ n := by
  obtain ⟨works, hworks, hn⟩ := estimateExpression_ok_iff.mp h
  obtain ⟨m, hm, hestimate⟩ := image_of_mapOk hworks hbody
  refine ⟨m, hestimate, ?_⟩
  rw [hn] at hlimit
  rw [hn]
  unfold cutOff at hlimit ⊢
  rw [Saturating.cut_of_le hlimit]
  exact List.le_sum_of_mem hm

theorem factor_of_atom {body : List Atom} {n : Nat} (h : estimateAtoms counts 1 body = .ok n)
    (hlimit : n ≤ maxWork) {atom : Atom} (hatom : atom ∈ body) :
    ∃ m, atomFactor counts atom = .ok m ∧ m ≤ n := by
  obtain ⟨factors, hfactors, hn⟩ := estimateAtoms_ok_iff.mp h
  obtain ⟨m, hm, hfactor⟩ := image_of_mapOk hfactors hatom
  exact ⟨m, hfactor, le_of_cutOff_prod (one_le_of_mapOk (fun _ _ => one_le_atomFactor) hfactors) hn
    hlimit hm⟩

theorem estimate_of_filter {ts : List Term} {n : Nat} (h : termFactors counts 1 ts = .ok n)
    (hlimit : n ≤ maxWork) {kind : AggKind} {target : Option Term} {filter : List Atom}
    (ht : .agg kind target filter ∈ ts) : ∃ m, estimateAtoms counts 1 filter = .ok m ∧ m ≤ n := by
  obtain ⟨shares, hshares, hn⟩ := termFactors_ok_iff.mp h
  obtain ⟨share, hshare, hterm⟩ := image_of_mapOk hshares ht
  have hle := le_of_cutOff_prod (one_le_of_mapOk (fun _ _ => one_le_termShare) hshares) hn hlimit hshare
  rw [termShare, Protocol.map_ok_iff] at hterm
  obtain ⟨m, hm, rfl⟩ := hterm
  exact ⟨m, hm, (le_max_right 1 m).trans hle⟩

/-- The factor of the terms of an atom is a part of that of the atom. -/
theorem termFactors_of_atom {atom : Atom} {n : Nat} (h : atomFactor counts atom = .ok n) :
    ∃ m, termFactors counts 1 (evaluatedTerms atom) = .ok m ∧ m ≤ n := by
  cases atom with
  | pred predId terms =>
    rw [atomFactor, bind_ok_iff] at h
    obtain ⟨m, hm, heq⟩ := h
    cases heq
    exact ⟨m, hm, Nat.le_mul_of_pos_left _ (lt_max_of_lt_left Nat.one_pos)⟩
  | ruleref ruleId version terms => cases h
  | cmp op lhs rhs =>
    rw [atomFactor, termFactor_pair] at h
    exact ⟨n, h, le_refl n⟩
  | inn x values => exact ⟨1, by rw [evaluatedTerms, termFactors], one_le_atomFactor h⟩
  | builtin op args =>
    rw [atomFactor] at h
    exact ⟨n, h, le_refl n⟩
  | not body => exact ⟨1, by rw [evaluatedTerms, termFactors], one_le_atomFactor h⟩

/-- **The estimate of a body that is run is no more than that of the clause.** -/
theorem estimate_of_runs {w : WhereExpr} {n : Nat} (h : estimateExpression counts w = .ok n)
    (hlimit : n ≤ maxWork) {body : List Atom} (hruns : Runs w body) :
    ∃ m, estimateAtoms counts 1 body = .ok m ∧ m ≤ n := by
  induction hruns with
  | branch hbody => exact estimate_of_branch h hlimit hbody
  | negated _ hatom hbody ih =>
    obtain ⟨outer, houter, hle⟩ := ih
    obtain ⟨factor, hfactor, hfactorLe⟩ := factor_of_atom houter (hle.trans hlimit) hatom
    rw [atomFactor, bind_ok_iff] at hfactor
    obtain ⟨inner, hinner, heq⟩ := hfactor
    cases heq
    have hinnerLe : inner ≤ n := (le_max_right 1 inner).trans (hfactorLe.trans hle)
    obtain ⟨m, hm, hmLe⟩ := estimate_of_branch hinner (hinnerLe.trans hlimit) hbody
    exact ⟨m, hm, hmLe.trans hinnerLe⟩
  | filter _ hatom hterm ih =>
    obtain ⟨outer, houter, hle⟩ := ih
    obtain ⟨factor, hfactor, hfactorLe⟩ := factor_of_atom houter (hle.trans hlimit) hatom
    obtain ⟨share, hshare, hshareLe⟩ := termFactors_of_atom hfactor
    have hshareN : share ≤ n := hshareLe.trans (hfactorLe.trans hle)
    obtain ⟨m, hm, hmLe⟩ := estimate_of_filter hshare (hshareN.trans hlimit) hterm
    exact ⟨m, hm, hmLe.trans hshareN⟩

end Bodies

/-! ## Environments -/

/-- What each of some items makes is at most so long. -/
theorem flatMap_length_le {A B : Type} {g : A → List B} {k : Nat} {as : List A}
    (h : ∀ a ∈ as, (g a).length ≤ k) : (as.flatMap g).length ≤ as.length * k := by
  rw [List.length_flatMap, ← List.length_map (f := fun a => (g a).length), ← smul_eq_mul]
  refine List.sum_le_card_nsmul _ _ ?_
  rw [List.forall_mem_map]
  exact h

/-- An atom that reads no rows keeps an environment, extends it or drops it. -/
theorem outcome_length {a : Atom} {e : Env} {out : List Env} (h : Outcome a e out) :
    out.length ≤ 1 := by
  cases h with
  | drop => exact Nat.zero_le 1
  | keep _ => exact le_refl 1
  | bind x v _ _ => exact le_refl 1

/-- The factor of an atom, one if it has none. -/
def factorOf (counts : List (String × Nat)) (atom : Atom) : Nat :=
  (atomFactor counts atom).toOption.getD 1

/-- The factors of a body with an estimate. -/
theorem factors_of_estimate {counts : List (String × Nat)} {body : List Atom} {n : Nat}
    (h : estimateAtoms counts 1 body = .ok n) :
    (∀ atom ∈ body, atomFactor counts atom = .ok (factorOf counts atom)) ∧
      n = cutOff (body.map (factorOf counts)).prod := by
  obtain ⟨factors, hfactors, hn⟩ := estimateAtoms_ok_iff.mp h
  have hatoms : ∀ atom ∈ body, atomFactor counts atom = .ok (factorOf counts atom) := by
    intro atom hatom
    obtain ⟨m, -, hfactor⟩ := image_of_mapOk hfactors hatom
    unfold factorOf
    rw [hfactor]
    rfl
  refine ⟨hatoms, ?_⟩
  have hmap : mapOk (atomFactor counts) body = .ok (body.map (factorOf counts)) := by
    rw [mapOk_ok_iff, List.forall₂_map_right_iff, List.forall₂_same]
    exact hatoms
  rw [hmap] at hfactors
  cases hfactors
  exact hn

/-- What the counts say of a view: no predicate has more rows. -/
def Counted (counts : List (String × Nat)) (viewFacts : ViewFacts) : Prop :=
  ∀ predId facts, viewFacts predId = some facts → facts.length ≤ (Dict.get? counts predId).getD 0

section Environments

variable {counts : List (String × Nat)} {ctx : EvalCtx} (hview : Counted counts ctx.viewFacts)

include hview

/-- **An atom makes at most its factor of environments out of one.** -/
theorem evalAtom_one {atom : Atom} {env : Env} {out : List Env} {n : Nat}
    (h : evalAtom ctx atom [env] = .ok out) (hfactor : atomFactor counts atom = .ok n) :
    out.length ≤ n := by
  cases atom with
  | pred predId terms =>
    rw [evalAtom, evalPred_ok_iff] at h
    obtain ⟨facts, hfacts, -, rfl⟩ := h
    rw [atomFactor, bind_ok_iff] at hfactor
    obtain ⟨factor, hterms, heq⟩ := hfactor
    cases heq
    have hcount : facts.length ≤ max 1 ((Dict.get? counts predId).getD 0) :=
      (hview predId facts hfacts).trans (le_max_right 1 _)
    -- the environment meets each row at most once
    rw [List.flatMap_singleton, predCandidatesForEnv_eq_filter]
    refine (List.length_filterMap_le _ _).trans ((List.length_filter_le _ _).trans ?_)
    exact hcount.trans (Nat.le_mul_of_pos_right _ (one_le_termFactors hterms))
  | ruleref _ _ _ | cmp _ _ _ | inn _ _ | builtin _ _ | not _ =>
    exact (outcome_length (outcome_evalAtom (by simp) h)).trans (one_le_atomFactor hfactor)

theorem evalAtom_length {atom : Atom} {envs out : List Env} {n : Nat}
    (h : evalAtom ctx atom envs = .ok out) (hfactor : atomFactor counts atom = .ok n) :
    out.length ≤ envs.length * n := by
  obtain ⟨f, hf, rfl⟩ := evalAtom_pointwise h
  exact flatMap_length_le fun env henv => evalAtom_one hview (hf env henv) hfactor

/-- **The environments alive after some atoms are at most the product of their factors.** -/
theorem runPlanned_length {items : Items}
    (hitems : ∀ p ∈ items, p.2 = evalAtom ctx p.1 ∧ atomFactor counts p.1 = .ok (factorOf counts p.1))
    {envs out : List Env} (h : runPlanned items envs = .ok out) :
    out.length ≤ envs.length * (items.map fun p => factorOf counts p.1).prod := by
  induction items generalizing envs with
  | nil =>
    cases h
    simp
  | cons p items ih =>
    rw [List.forall_mem_cons] at hitems
    obtain ⟨⟨hsem, hfactor⟩, hrest⟩ := hitems
    rw [runPlanned, bind_ok_iff] at h
    obtain ⟨envs', hatom, hrun⟩ := h
    rw [hsem] at hatom
    have hle := evalAtom_length hview hatom hfactor
    split at hrun
    · cases hrun
      exact Nat.zero_le _
    · rw [List.map_cons, List.prod_cons, ← Nat.mul_assoc]
      exact (ih hrest hrun).trans (Nat.mul_le_mul_right _ hle)

/-- **After the first atoms of its plan a body has no more environments than its estimate, for each it
is given.** -/
theorem prefix_length {body : List Atom} {n : Nat} (hestimate : estimateAtoms counts 1 body = .ok n)
    (hlimit : n ≤ maxWork) {envs out : List Env} {planned : Items}
    (hplanned : planBodyAtoms ctx.astGateOn Prod.fst (boundVars envs) (evalItems ctx body) = .ok planned)
    {k : Nat} (h : runPlanned (planned.take k) envs = .ok out) : out.length ≤ envs.length * n := by
  obtain ⟨hfactors, hn⟩ := factors_of_estimate hestimate
  have hperm := planBodyAtoms_perm hplanned
  rw [evalItems_map] at hperm
  have hmem : ∀ p ∈ planned, p.2 = evalAtom ctx p.1 ∧
      atomFactor counts p.1 = .ok (factorOf counts p.1) := by
    intro p hp
    rw [hperm.mem_iff, List.mem_map] at hp
    obtain ⟨atom, hatom, rfl⟩ := hp
    exact ⟨rfl, hfactors atom hatom⟩
  have hrun := runPlanned_length hview (fun p hp => hmem p (List.mem_of_mem_take hp)) h
  refine hrun.trans (Nat.mul_le_mul_left _ ?_)
  -- a part of the plan is a part of the product
  have htake : ((planned.take k).map fun p => factorOf counts p.1).Sublist
      (planned.map fun p => factorOf counts p.1) := (List.take_sublist k planned).map _
  have hpos : ∀ f ∈ planned.map fun p => factorOf counts p.1, 1 ≤ f := by
    rw [List.forall_mem_map]
    exact fun p hp => one_le_atomFactor (hmem p hp).2
  have hwhole : (planned.map fun p => factorOf counts p.1).prod =
      (body.map (factorOf counts)).prod := by
    rw [(hperm.map _).prod_eq, List.map_map]
    rfl
  have hexact : n = (body.map (factorOf counts)).prod := by
    rw [hn] at hlimit
    rw [hn]
    exact Saturating.cut_of_le hlimit
  rw [hexact, ← hwhole]
  exact htake.prod_le_prod' hpos

/-- A whole body. -/
theorem evalBody_length {body : List Atom} {n : Nat} (hestimate : estimateAtoms counts 1 body = .ok n)
    (hlimit : n ≤ maxWork) {envs out : List Env} (h : evalBody ctx body envs = .ok out) :
    out.length ≤ envs.length * n := by
  unfold evalBody runBody at h
  rw [bind_ok_iff] at h
  obtain ⟨planned, hplanned, hrun⟩ := h
  rw [← List.take_length (l := planned)] at hrun
  exact prefix_length hview hestimate hlimit hplanned hrun

end Environments

/-! ## Bindings -/

theorem dedupBindings_length (envs : List Env) : (dedupBindings envs).length ≤ envs.length := by
  have hfold : ∀ (envs kept : List Env),
      (envs.foldl (fun kept env =>
        if kept.any fun e => seenKey e = seenKey env then kept else kept ++ [env]) kept).length ≤
        kept.length + envs.length := by
    intro envs
    induction envs with
    | nil =>
      intro kept
      exact le_refl _
    | cons env envs ih =>
      intro kept
      rw [List.foldl_cons]
      refine (ih _).trans ?_
      rw [List.length_cons]
      split
      · omega
      · rw [List.length_append, List.length_singleton]
        omega
  have hle := hfold envs []
  rw [List.length_nil, Nat.zero_add] at hle
  exact hle

/-- **A clause within the limit returns no more bindings than its estimate.** -/
theorem evaluateWhere_length {counts : List (String × Nat)} {ctx : EvalCtx}
    (hview : Counted counts ctx.viewFacts) {w : WhereExpr} {n : Nat}
    (hestimate : estimateExpression counts w = .ok n) (hlimit : n ≤ maxWork) {bindings : List Env}
    (h : evaluateWhere ctx w = .ok bindings) : bindings.length ≤ n := by
  unfold evaluateWhere at h
  rw [bind_unit_ok_iff, bind_unit_ok_iff, bind_ok_iff] at h
  obtain ⟨-, -, raw, hraw, hsorted⟩ := h
  have hsort : bindings.length = (dedupBindings raw).length := by
    unfold sortBindings at hsorted
    split at hsorted
    · cases hsorted
      exact List.length_insertionSort _ _
    · cases hsorted
  rw [hsort]
  refine (dedupBindings_length raw).trans ?_
  -- the branches, one by one
  obtain ⟨works, hworks, hn⟩ := estimateExpression_ok_iff.mp hestimate
  have hsum : n = works.sum := by
    rw [hn] at hlimit
    rw [hn]
    exact Saturating.cut_of_le hlimit
  obtain ⟨g, hg, rfl⟩ := collect_eq_flatMap hraw
  have hbranches : List.Forall₂ (fun b work => (g b).length ≤ work) w.branches works := by
    have hforall := mapOk_ok_iff.mp hworks
    refine List.forall₂_iff_get.mpr ⟨hforall.length_eq, fun i hi hi' => ?_⟩
    have hwork := hforall.get hi hi'
    have hle : works.get ⟨i, hi'⟩ ≤ maxWork := by
      refine le_trans ?_ hlimit
      rw [hsum]
      exact List.le_sum_of_mem (List.get_mem _ _)
    have hbody := evalBody_length hview hwork hle (hg _ (List.get_mem _ _))
    rwa [List.length_singleton, Nat.one_mul] at hbody
  rw [List.length_flatMap, hsum]
  refine List.Forall₂.sum_le_sum ?_
  rw [List.forall₂_map_left_iff]
  exact hbranches

/-! ## Relations -/

theorem get?_counts (relations : Relations) (predId : String) :
    Dict.get? relations.counts predId = (relations.view predId).map List.length := by
  unfold Relations.counts Relations.view
  induction relations.items with
  | nil => rfl
  | cons item items ih =>
    rw [List.map_cons, List.map_cons, Dict.get?_cons, Dict.get?_cons, ih]
    split
    · rw [Option.map_some, List.length_map]
    · rfl

theorem counted_view (relations : Relations) : Counted relations.counts relations.view := by
  intro predId facts hfacts
  rw [get?_counts, hfacts]
  exact le_refl _

theorem keys_counts (relations : Relations) : (Dict.keys relations.counts).Nodup := by
  unfold Relations.counts Dict.keys
  rw [List.map_map]
  exact relations.unique

/-- The counts of relations that have grown. -/
theorem counts_grow {relations relations' : Relations} (h : RelationsGrow relations relations') :
    ∀ p ∈ relations.counts, ∃ p' ∈ relations'.counts, p'.1 = p.1 ∧ p.2 ≤ p'.2 := by
  unfold Relations.counts
  rw [List.forall_mem_map]
  intro item hitem
  obtain ⟨item', hitem', hpred, hfacts⟩ := h item hitem
  exact ⟨_, List.mem_map_of_mem hitem', hpred, hfacts.length_le⟩

theorem countsLe_of_grow {relations relations' : Relations} (h : RelationsGrow relations relations') :
    CountsLe relations.counts relations'.counts := by
  intro predId
  cases hcount : Dict.get? relations.counts predId with
  | none => exact Nat.zero_le _
  | some n =>
    obtain ⟨p', hp', hpred, hle⟩ := counts_grow h _ (Dict.mem_of_get? hcount)
    have hget : Dict.get? relations'.counts predId = some p'.2 := by
      rw [show predId = p'.1 from hpred.symm]
      exact (Dict.get?_eq_some_iff (keys_counts relations')).mpr hp'
    rw [hget]
    exact hle

/-- Counts under different keys add up to no more than others that have them all. -/
theorem sum_counts_le {counts counts' : List (String × Nat)} (hkeys : (Dict.keys counts).Nodup)
    (h : ∀ p ∈ counts, ∃ p' ∈ counts', p'.1 = p.1 ∧ p.2 ≤ p'.2) :
    (counts.map Prod.snd).sum ≤ (counts'.map Prod.snd).sum := by
  induction counts generalizing counts' with
  | nil => exact Nat.zero_le _
  | cons p counts ih =>
    unfold Dict.keys at hkeys ih
    rw [List.map_cons, List.nodup_cons] at hkeys
    rw [List.forall_mem_cons] at h
    obtain ⟨⟨p', hp', hpred, hle⟩, hrest⟩ := h
    have hothers : ∀ q ∈ counts, ∃ q' ∈ counts'.erase p', q'.1 = q.1 ∧ q.2 ≤ q'.2 := by
      intro q hq
      obtain ⟨q', hq', hqpred, hqle⟩ := hrest q hq
      have hne : q' ≠ p' := by
        rintro rfl
        exact hkeys.1 (List.mem_map.mpr ⟨q, hq, hqpred.symm.trans hpred⟩)
      exact ⟨q', (List.mem_erase_of_ne hne).mpr hq', hqpred, hqle⟩
    have hperm := ((List.perm_cons_erase hp').map Prod.snd).sum_eq
    rw [hperm, List.map_cons, List.map_cons, List.sum_cons, List.sum_cons]
    exact Nat.add_le_add hle (ih hkeys.2 hothers)

/-! ## The gate -/

/-- **Facts, rows and atoms never make the work less.** -/
theorem estimateVerificationWork_le {w w' : WhereExpr} {relations relations' : Relations}
    {rows rows' work work' : Nat} (hwhere : WhereGrows w w') (hrelations : RelationsGrow relations relations')
    (hrows : rows ≤ rows') (h : estimateVerificationWork w relations.counts rows = .ok work)
    (h' : estimateVerificationWork w' relations'.counts rows' = .ok work') : work ≤ work' := by
  unfold estimateVerificationWork at h h'
  simp only [bind_ok_iff] at h h'
  obtain ⟨bound, hbound, conditions, hconditions, heq⟩ := h
  obtain ⟨bound', hbound', conditions', hconditions', heq'⟩ := h'
  cases heq
  cases heq'
  have hdearer := where_dearer (countsLe_of_grow hrelations) w hwhere
  have hscan : relationScanBound relations.counts ≤ relationScanBound relations'.counts :=
    max_le_max_left 1 (sum_counts_le (keys_counts relations) (counts_grow hrelations))
  have hcondition : max 1 conditions ≤ max 1 conditions' :=
    max_le_max_left 1 (hdearer.count_le _ _ hconditions hconditions')
  have hestimate := hdearer.price_le _ _ hbound hbound'
  unfold saturatingMultiply saturatingAdd
  simp only [Saturating.mul_eq, Saturating.add_eq]
  refine Saturating.cut_mono (Nat.mul_le_mul (Saturating.cut_mono ?_) (Saturating.cut_mono ?_))
  · exact Nat.add_le_add hestimate hrows
  · exact Nat.mul_le_mul_left 3 (Saturating.cut_mono (Nat.mul_le_mul hcondition hscan))

/-- An admitted clause has an estimate that is no more than its work. -/
theorem estimate_of_work {w : WhereExpr} {counts : List (String × Nat)} {rows work : Nat}
    (h : estimateVerificationWork w counts rows = .ok work) (hlimit : work ≤ maxWork) :
    ∃ n, estimateExpression counts w = .ok n ∧ n ≤ work := by
  unfold estimateVerificationWork at h
  simp only [bind_ok_iff] at h
  obtain ⟨bound, hbound, conditions, -, heq⟩ := h
  cases heq
  refine ⟨bound, hbound, ?_⟩
  unfold saturatingMultiply saturatingAdd at hlimit ⊢
  simp only [Saturating.mul_eq, Saturating.add_eq] at hlimit ⊢
  have hscans : 1 ≤ Saturating.cut maxWork
      (3 * Saturating.cut maxWork (max 1 conditions * relationScanBound counts)) := by
    refine Saturating.one_le_cut (Nat.mul_pos (by decide) (Saturating.one_le_cut ?_))
    exact Nat.mul_pos (lt_max_of_lt_left Nat.one_pos) (lt_max_of_lt_left Nat.one_pos)
  rw [Saturating.cut_cut_mul hscans] at hlimit ⊢
  rw [Saturating.cut_of_le hlimit]
  exact (Nat.le_add_right bound rows).trans (Nat.le_mul_of_pos_right _ hscans)

/-- **What the gate promises.** -/
structure GateSound (relations : Relations) (ctx : EvalCtx) (w : WhereExpr) : Prop where
  /-- After the first atoms of its plan, a body has no more environments than the estimate. -/
  alive : ∀ n, estimateExpression relations.counts w = .ok n → n ≤ maxWork →
    ∀ body, Runs w body → ∀ env planned k out,
      planBodyAtoms ctx.astGateOn Prod.fst (boundVars [env]) (evalItems ctx body) = .ok planned →
      runPlanned (planned.take k) [env] = .ok out → out.length ≤ n
  /-- The evaluation returns no more bindings than the estimate. -/
  returned : ∀ n, estimateExpression relations.counts w = .ok n → n ≤ maxWork →
    ∀ bindings, evaluateWhere ctx w = .ok bindings → bindings.length ≤ n
  /-- More facts, rows or atoms are not less work. -/
  monotone : ∀ w' relations' rows rows' work work', WhereGrows w w' → RelationsGrow relations relations' →
    rows ≤ rows' → estimateVerificationWork w relations.counts rows = .ok work →
    estimateVerificationWork w' relations'.counts rows' = .ok work' → work ≤ work'
  /-- An admitted bundle has no more bindings than its work. -/
  admitted : ∀ rows work, estimateVerificationWork w relations.counts rows = .ok work →
    work ≤ maxWork → ∀ bindings, evaluateWhere ctx w = .ok bindings → bindings.length ≤ work

/-- **The work gate is sound**: for every clause, over every relations, with or without the validation of
the clause. -/
theorem work_gate_sound (relations : Relations) (floats : FloatOps) (astGateOn : Bool) (w : WhereExpr) :
    GateSound relations ⟨relations.view, floats, astGateOn⟩ w where
  alive := by
    intro n hn hlimit body hbody env planned k out hplanned hrun
    obtain ⟨m, hm, hle⟩ := estimate_of_runs hn hlimit hbody
    have hlength := prefix_length (counted_view relations) hm (hle.trans hlimit) hplanned hrun
    rw [List.length_singleton, Nat.one_mul] at hlength
    exact hlength.trans hle
  returned := fun n hn hlimit bindings hbindings =>
    evaluateWhere_length (counted_view relations) hn hlimit hbindings
  monotone := fun w' relations' rows rows' work work' hwhere hrelations hrows h h' =>
    estimateVerificationWork_le hwhere hrelations hrows h h'
  admitted := by
    intro rows work hwork hlimit bindings hbindings
    obtain ⟨n, hn, hle⟩ := estimate_of_work hwork hlimit
    exact (evaluateWhere_length (counted_view relations) hn (hle.trans hlimit) hbindings).trans hle

end FactGraph.Evaluate
