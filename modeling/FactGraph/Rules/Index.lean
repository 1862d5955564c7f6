import FactGraph.Rules.Locality

/-!
# Predicate atoms: the index and the join

`_eval_pred_atom` reads the rows through an index on the columns whose value is known, and then
scans the terms of each candidate. Two facts make it a join. The index is a filter: what it
returns for a key are the rows that have the key, in their order. And a row that passes the
filter is matched exactly when it joins with the binding the environment stands for.

The scan takes a variable bound to `None` for an unbound one, so a row with a `None` cell can
rebind a variable that occurs twice. The rows a schema admits have no such cell.
-/

namespace FactGraph.Rules

open Enumeration

/-- No cell of the view is `None`. -/
def NoNoneCells (viewFacts : ViewFacts) : Prop :=
  ∀ p facts, viewFacts p = some facts → ∀ fact ∈ facts, Value.none ∉ fact

/-! ## The index -/

/-- Grouping rows under a key: a key finds the rows that have it. -/
theorem get?_foldl_index (positions : List Nat) (facts : List Fact)
    (index : List (List Value × List Fact)) (key : List Value) :
    (Dict.get? (facts.foldl (fun index fact =>
      Dict.set index (keyAt positions fact)
        ((Dict.get? index (keyAt positions fact)).getD [] ++ [fact])) index) key).getD [] =
      (Dict.get? index key).getD [] ++ facts.filter fun fact => keyAt positions fact = key := by
  induction facts generalizing index with
  | nil => simp
  | cons fact facts ih =>
    rw [List.foldl_cons, ih, Dict.get?_set]
    by_cases h : key = keyAt positions fact
    · simp [h]
    · simp [h, Ne.symm h]

/-- The index is a filter on the rows. -/
theorem get?_buildIndex (positions : List Nat) (facts : List Fact) (key : List Value) :
    (Dict.get? (buildIndex positions facts) key).getD [] =
      facts.filter fun fact => keyAt positions fact = key := by
  simpa [buildIndex] using get?_foldl_index positions facts [] key

/-- A row has the key that an environment asks for. -/
def HasKey (env : Env) (terms : List Term) (fact : Fact) : Prop :=
  ∀ p ∈ lookupKey env 0 terms, (fact.getD p.1 .none).canon = p.2.canon

instance (env : Env) (terms : List Term) (fact : Fact) : Decidable (HasKey env terms fact) :=
  inferInstanceAs (Decidable (∀ p ∈ _, _))

/-- The candidates are the rows that have the key; with no column known, all of them. -/
theorem predCandidatesForEnv_eq_filter (facts : List Fact) (terms : List Term) (env : Env) :
    predCandidatesForEnv facts terms env = facts.filter fun fact => HasKey env terms fact := by
  simp only [predCandidatesForEnv]
  split
  · next h =>
    rw [List.isEmpty_iff] at h
    simp [HasKey, h]
  · rw [get?_buildIndex]
    refine List.filter_congr fun fact _ => decide_eq_decide.mpr ?_
    simp [HasKey, keyAt]

/-- What the key asks of a row, term by term from position `k` on. -/
theorem hasKey_shift {env : Env} {terms : List Term} {k : Nat} (pre : Fact) {fact : Fact}
    (hk : pre.length = k) :
    (∀ p ∈ lookupKey env k terms, ((pre ++ fact).getD p.1 .none).canon = p.2.canon) ↔
      HasKey env terms fact := by
  suffices h : lookupKey env k terms = (lookupKey env 0 terms).map fun p => (k + p.1, p.2) by
    rw [h, HasKey]
    simp only [List.forall_mem_map]
    refine forall₂_congr fun p _ => ?_
    rw [List.getD_eq_getElem?_getD, List.getD_eq_getElem?_getD,
      List.getElem?_append_right (by omega), hk, Nat.add_sub_cancel_left]
  have shift : ∀ i, lookupKey env (k + i) terms =
      (lookupKey env i terms).map fun p => (k + p.1, p.2) := by
    induction terms with
    | nil => simp [lookupKey]
    | cons t ts ih =>
      intro i
      have ih : lookupKey env (k + i + 1) ts = _ := ih (i + 1)
      cases t with
      | var x => cases hx : Dict.get? env x <;> simp [lookupKey, hx, ih]
      | const v => simp [lookupKey, ih]
      | agg _ _ _ => simp [lookupKey, ih]
  exact shift 0

theorem hasKey_cons {env : Env} {t : Term} {ts : List Term} {cell : Value} {cells : Fact} :
    HasKey env (t :: ts) (cell :: cells) ↔
      (match t with
        | .var x => ∀ v, Dict.get? env x = some v → v.eqv cell = true
        | .const v => v.eqv cell = true
        | .agg .. => True) ∧ HasKey env ts cells := by
  have htail : (∀ p ∈ lookupKey env 1 ts,
      ((cell :: cells).getD p.1 .none).canon = p.2.canon) ↔ HasKey env ts cells :=
    hasKey_shift [cell] rfl
  rw [← htail, HasKey]
  cases t with
  | var x =>
    cases hx : Dict.get? env x with
    | none => simp only [lookupKey, hx, reduceCtorEq, false_implies, implies_true, true_and]
    | some v =>
      simp only [lookupKey, hx, List.forall_mem_cons, List.getD_cons_zero, Option.some.injEq,
        forall_eq', Value.eqv_iff, @eq_comm _ cell.canon]
  | const v =>
    simp only [lookupKey, List.forall_mem_cons, List.getD_cons_zero, Value.eqv_iff,
      @eq_comm _ cell.canon]
  | agg _ _ _ => simp only [lookupKey, true_and]

/-! ## The join -/

theorem matchTerms_var_unbound {env : Env} {x : String} (hx : Dict.get? env x = none)
    (ts : List Term) (cell : Value) (cells : Fact) :
    matchTerms (.var x :: ts) (cell :: cells) env =
      matchTerms ts cells (Dict.set env x cell) := by
  simp only [matchTerms, hx]

theorem matchTerms_var_bound {env : Env} {x : String} {bound : Value}
    (hx : Dict.get? env x = some bound) (hbound : bound ≠ .none) (ts : List Term) (cell : Value)
    (cells : Fact) :
    matchTerms (.var x :: ts) (cell :: cells) env =
      if bound.eqv cell then matchTerms ts cells env else none := by
  cases bound with
  | none => exact absurd rfl hbound
  | bool _ | int _ | float _ | str _ | bytes _ => simp only [matchTerms, hx]

/-- `None` equals nothing but itself. -/
theorem Value.none_eqv {v : Value} (hv : Value.none ≠ v) : Value.none.eqv v = false := by
  cases v with
  | none => exact absurd rfl hv
  | bool _ | int _ | float _ | str _ | bytes _ => rfl

/-- Binding a variable on the way and extending to more is one extension. -/
theorem extends_set_iff {env : Env} {x : String} (hx : x ∉ env.scope) {cell : Value} {W : Scope}
    {σ : Binding} :
    Extends (insert x env.scope) (Function.update env.binding x (some cell)) W σ ↔
      Extends env.scope env.binding W σ ∧ σ x = some cell := by
  have hne : ∀ y ∈ env.scope, y ≠ x := fun y hy hyx => hx (hyx ▸ hy)
  constructor
  · rintro ⟨hin, hdom⟩
    refine ⟨⟨fun y hy => ?_, hdom⟩, ?_⟩
    · rw [hin y (Finset.mem_insert_of_mem hy), Function.update_of_ne (hne y hy)]
    · rw [hin x (Finset.mem_insert_self x _), Function.update_self]
  · rintro ⟨⟨hin, hdom⟩, hcell⟩
    refine ⟨fun y hy => ?_, hdom⟩
    rcases Finset.mem_insert.mp hy with rfl | hy
    · rw [Function.update_self, hcell]
    · rw [Function.update_of_ne (hne y hy), hin y hy]

/-- **A scan is a join.** Of the rows that have the key, the scan of a row without `None` keeps
those that join, and returns the one extension of the environment that joins with it. The terms
may be the rest of a longer list: what the atom has bound so far is bound in `env`, and the key
was asked of the environment `env₀` the scan started from. -/
theorem matchTerms_iff {env₀ env : Env} {terms : List Term} {fact : Fact}
    (hlen : fact.length = terms.length) (hnone : Value.none ∉ fact)
    (hsub : ∀ x v, Dict.get? env₀ x = some v → Dict.get? env x = some v)
    (hnew : ∀ x, Dict.get? env x = some .none → Dict.get? env₀ x = some .none) (σ : Binding) :
    (HasKey env₀ terms fact ∧ (matchTerms terms fact env).map Env.binding = some σ) ↔
      Extends env.scope env.binding (env.scope ∪ varTerms terms) σ ∧
        Joins env.scope terms fact σ := by
  induction terms generalizing env fact with
  | nil =>
    have hfact : fact = [] := List.length_eq_zero_iff.mp hlen
    subst hfact
    simp only [matchTerms, varTerms, Finset.union_empty, Joins, and_true, Option.map_some,
      Option.some.injEq]
    constructor
    · rintro ⟨-, rfl⟩
      exact Extends.refl fun x => Env.mem_scope
    · intro h
      exact ⟨by simp [HasKey, lookupKey], (h.eq_of_same_scope fun x => Env.mem_scope).symm⟩
  | cons t ts ih =>
    obtain ⟨cell, cells, rfl⟩ : ∃ cell cells, fact = cell :: cells := by
      cases fact with
      | nil => simp at hlen
      | cons cell cells => exact ⟨cell, cells, rfl⟩
    simp only [List.length_cons, Nat.add_right_cancel_iff] at hlen
    simp only [List.mem_cons, not_or] at hnone
    rw [hasKey_cons]
    cases t with
    | const v =>
      have ih := ih hlen hnone.2 hsub hnew
      simp only [matchTerms, varTerms, Joins]
      by_cases hv : v.eqv cell = true
      · rw [if_pos hv, and_assoc, ih]
        tauto
      · simp [hv]
    | agg kind target filter => simp [matchTerms, Joins]
    | var x =>
      simp only [varTerms, Joins]
      cases hx : Dict.get? env x with
      | none =>
        -- the atom binds the variable: its first cell
        have hxV : x ∉ env.scope := Env.notMem_scope.mpr hx
        have hx₀ : Dict.get? env₀ x = none := by
          cases h₀ : Dict.get? env₀ x with
          | none => rfl
          | some v => rw [hsub x v h₀] at hx; cases hx
        have hsub' : ∀ y v, Dict.get? env₀ y = some v →
            Dict.get? (Dict.set env x cell) y = some v := by
          intro y v hy
          rw [Dict.get?_set_of_ne (by rintro rfl; rw [hx₀] at hy; cases hy), hsub y v hy]
        have hnew' : ∀ y, Dict.get? (Dict.set env x cell) y = some .none →
            Dict.get? env₀ y = some .none := by
          intro y hy
          by_cases hyx : y = x
          · rw [hyx, Dict.get?_set_self, Option.some.injEq] at hy
            exact absurd hy.symm hnone.1
          · exact hnew y (by rwa [Dict.get?_set_of_ne hyx] at hy)
        have ih := ih hlen hnone.2 hsub' hnew'
        rw [Env.scope_set, Env.binding_set, extends_set_iff hxV, Finset.insert_union,
          ← Finset.union_insert] at ih
        rw [matchTerms_var_unbound hx, if_neg hxV, and_assoc, ih]
        simp only [hx₀, reduceCtorEq, false_implies, implies_true, true_and, and_assoc]
      | some bound =>
        have hxV : x ∈ env.scope := Env.mem_scope.mpr (by simp [Env.binding, hx])
        have hin : Extends env.scope env.binding (env.scope ∪ varTerms ts) σ →
            σ x = some bound := fun h => (h.1 x hxV).trans hx
        rw [Finset.union_insert, Finset.insert_eq_of_mem (Finset.mem_union_left _ hxV),
          Finset.insert_eq_of_mem hxV, if_pos hxV]
        by_cases hbound : bound = .none
        · -- the key has already refused the row
          have hcell : Value.none.eqv cell = false := Value.none_eqv hnone.1
          subst hbound
          constructor
          · rintro ⟨⟨hkey, -⟩, -⟩
            exact absurd (hkey _ (hnew x hx)) (by simp [hcell])
          · rintro ⟨hext, ⟨v, hv, hv'⟩, -⟩
            rw [hin hext, Option.some.injEq] at hv
            exact absurd (hv ▸ hv') (by simp [hcell])
        · have ih := ih hlen hnone.2 hsub hnew
          rw [matchTerms_var_bound hx hbound]
          by_cases hcell : bound.eqv cell = true
          · have hkey : ∀ v, Dict.get? env₀ x = some v → v.eqv cell = true := by
              intro v hv
              rw [hsub x v hv, Option.some.injEq] at hx
              exact hx ▸ hcell
            rw [if_pos hcell, and_assoc, ih]
            constructor
            · rintro ⟨-, hext, hjoin⟩
              exact ⟨hext, ⟨bound, hin hext, hcell⟩, hjoin⟩
            · rintro ⟨hext, -, hjoin⟩
              exact ⟨hkey, hext, hjoin⟩
          · rw [if_neg hcell]
            constructor
            · rintro ⟨-, h⟩
              cases h
            · rintro ⟨hext, ⟨v, hv, hv'⟩, -⟩
              rw [hin hext, Option.some.injEq] at hv
              exact absurd (hv ▸ hv') hcell

/-! ## The atom -/

/-- In an environment, a predicate atom enumerates the rows that join with it. -/
theorem enumerates_pred {viewFacts : ViewFacts} (hnone : NoNoneCells viewFacts) {p : String}
    {terms : List Term} {facts : List Fact} (hp : viewFacts p = some facts)
    (hlen : ∀ fact ∈ facts, fact.length = terms.length) (env : Env) :
    Enumerates 1
      (((predCandidatesForEnv facts terms env).filterMap fun fact =>
        matchTerms terms fact env).map Env.binding)
      (fun c σ => Extends env.scope env.binding (env.scope ∪ varTerms terms) σ ∧
        predRel viewFacts p terms env.scope σ c) := by
  rw [predCandidatesForEnv_eq_filter, List.filterMap_filter, List.map_filterMap]
  refine (enumerates_filterMap _ facts).congr fun c σ => ?_
  have hiff : ∀ fact ∈ facts,
      (if HasKey env terms fact then matchTerms terms fact env else none).map Env.binding =
          some σ ↔
        Extends env.scope env.binding (env.scope ∪ varTerms terms) σ ∧
          Joins env.scope terms fact σ := by
    intro fact hfact
    rw [← matchTerms_iff (hlen fact hfact) (hnone p facts hp fact hfact) (fun _ _ h => h)
      (fun _ h => h) σ]
    by_cases hkey : HasKey env terms fact <;> simp [hkey]
  simp only [predRel, hp, Option.some.injEq, decide_eq_true_eq]
  constructor
  · rintro ⟨i, fact, rfl, hi, hσ⟩
    have hfact := List.mem_of_getElem? hi
    obtain ⟨hext, hjoin⟩ := (hiff fact hfact).mp hσ
    exact ⟨hext, facts, i, fact, rfl, rfl, hi, hlen fact hfact, hjoin⟩
  · rintro ⟨hext, facts', i, fact, hfacts, hc, hi, -, hjoin⟩
    rw [← hfacts] at hi
    exact ⟨i, fact, hc, hi, (hiff fact (List.mem_of_getElem? hi)).mpr ⟨hext, hjoin⟩⟩

end FactGraph.Rules
