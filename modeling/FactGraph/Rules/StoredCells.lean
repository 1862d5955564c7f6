import Mathlib.Algebra.BigOperators.Group.List.Basic
import Mathlib.Algebra.Order.Ring.Cast
import FactGraph.Rules.RowOrder

/-!
# Aggregates over stored cells

The rows of a view hold numbers, truth values and texts, never floats: a claim stores a float as the
text of its bits. So an aggregate whose target is a variable that the filter takes from the rows, or
finds bound, gets values of one kind (`OneKind`). Integers add up to the same sum in every order, and
the least and the greatest of one kind are the same value wherever they stand. Such an aggregate does
not read the order of its matches (`orderBlind_of_readsCells`).

The variable must not be bound by an `eq`: an `eq` can bind it to another aggregate, and means are
floats, whose sum depends on the order.
-/

namespace FactGraph.Rules

open Check

/-! ## Values of one kind -/

/-- What a cell of a view is. -/
inductive CellKind where
  | int
  | bool
  | str
  deriving DecidableEq

def Value.cellKind? : Value → Option CellKind
  | .int _ => some .int
  | .bool _ => some .bool
  | .str _ => some .str
  | .none | .float _ | .bytes _ => Option.none

/-- What the cells of a kind hold. -/
def CellKind.Carrier : CellKind → Type
  | .int => Int
  | .bool => Bool
  | .str => String

instance (kind : CellKind) : LinearOrder kind.Carrier :=
  match kind with
  | .int => inferInstanceAs (LinearOrder Int)
  | .bool => inferInstanceAs (LinearOrder Bool)
  | .str => inferInstanceAs (LinearOrder String)

def CellKind.value : (kind : CellKind) → kind.Carrier → Value
  | .int => Value.int
  | .bool => Value.bool
  | .str => Value.str

theorem CellKind.value_injective (kind : CellKind) : Function.Injective kind.value := by
  intro a b h
  cases kind with
  | int => exact Value.int.inj h
  | bool => exact Value.bool.inj h
  | str => exact Value.str.inj h

/-- Cells of one kind are compared as what they hold. -/
theorem CellKind.lt?_value {kind : CellKind} (a b : kind.Carrier) :
    (kind.value a).lt? (kind.value b) = some (decide (a < b)) := by
  cases kind with
  | int =>
    have hcast : ((Int.cast (R := Rat) a < Int.cast b) ↔ a < b) := Int.cast_lt
    exact congrArg some (decide_eq_decide.mpr hcast)
  | bool => cases a <;> cases b <;> decide
  | str => rfl

theorem exists_of_cellKind? {kind : CellKind} {v : Value} (h : v.cellKind? = some kind) :
    ∃ a, kind.value a = v := by
  cases v <;> cases h
  · exact ⟨_, rfl⟩
  · exact ⟨_, rfl⟩
  · exact ⟨_, rfl⟩

theorem exists_map_of_kind {kind : CellKind} {vs : List Value}
    (h : ∀ v ∈ vs, v.cellKind? = some kind) : ∃ l : List kind.Carrier, vs = l.map kind.value := by
  induction vs with
  | nil => exact ⟨[], rfl⟩
  | cons v vs ih =>
    rw [List.forall_mem_cons] at h
    obtain ⟨a, rfl⟩ := exists_of_cellKind? h.1
    obtain ⟨l, rfl⟩ := ih h.2
    exact ⟨a :: l, rfl⟩

/-- One value over and over, or cells of one kind. -/
def OneKind (vs : List Value) : Prop :=
  (∃ v, ∀ w ∈ vs, w = v) ∨ ∃ kind, ∀ w ∈ vs, w.cellKind? = some kind

/-! ## Their order is not read -/

/-- The best of some values that are ordered is the least of what they hold. -/
theorem extremum_map {α : Type} [LinearOrder α] {beats : Value → Value → Option Bool} {f : α → Value}
    (hbeats : ∀ a b, beats (f a) (f b) = some (decide (a < b))) (l : List α) :
    extremum beats (l.map f) = l.min?.map f := by
  have hfold : ∀ a, (l.map f).foldlM
      (fun best w => (beats w best).map fun b => if b then w else best) (f a) =
        some (f (l.foldl min a)) := by
    induction l with
    | nil => exact fun a => rfl
    | cons b l ih =>
      intro a
      have hbest : (if decide (b < a) then f b else f a) = f (min a b) := by
        rcases lt_or_ge b a with hlt | hle
        · simp [hlt, hlt.le]
        · simp [hle]
      rw [List.map_cons, List.foldlM_cons, hbeats, Option.map_some, hbest, List.foldl_cons]
      exact ih (min a b)
  cases l with
  | nil => rfl
  | cons a l =>
    have hrest := hfold a
    rw [List.map_cons, List.foldlM_cons, hbeats, decide_eq_false (lt_irrefl a), Option.map_some,
      List.foldl_cons, min_self] at hrest
    exact hrest

theorem min?_perm {α : Type} [LinearOrder α] {l l' : List α} (h : l.Perm l') : l.min? = l'.min? := by
  ext m
  simp only [List.min?_eq_some_iff, h.mem_iff]

theorem sumValues_ints (floats : FloatOps) (is : List Int) :
    sumValues floats (is.map Value.int) = .ok (.int is.sum) := by
  have hints : ∀ f : Value → Option Int, (∀ i, f (.int i) = some i) →
      (is.map Value.int).mapM f = some is := by
    intro f hf
    induction is with
    | nil => rfl
    | cons i is ih =>
      rw [List.map_cons, List.mapM_cons, hf, ih]
      rfl
  unfold sumValues
  rw [hints _ fun _ => rfl]

/-- Cells of one kind are numbers, all of them or none. -/
theorem sumValues_perm {floats : FloatOps} {cells : CellKind} {l l' : List cells.Carrier}
    (h : l.Perm l') (hnumeric : (l.map cells.value).all Value.isNumeric = true) :
    sumValues floats (l.map cells.value) = sumValues floats (l'.map cells.value) := by
  cases cells with
  | int =>
    have hints : ∀ is is' : List Int, is.Perm is' →
        sumValues floats (is.map Value.int) = sumValues floats (is'.map Value.int) := by
      intro is is' hperm
      rw [sumValues_ints, sumValues_ints, hperm.sum_eq]
    exact hints l l' h
  | bool | str =>
    cases l with
    | nil => rw [h.nil_eq]
    | cons a l => cases hnumeric

/-- **An aggregate of values of one kind does not depend on their order.** -/
theorem aggregateValues_perm {floats : FloatOps} {kind : AggKind} {vs vs' : List Value}
    (h : OneKind vs) (hperm : vs.Perm vs') :
    aggregateValues floats kind vs = aggregateValues floats kind vs' := by
  rcases h with ⟨v, hv⟩ | ⟨cells, hcells⟩
  · have hsame : vs = vs' := by
      rw [List.eq_replicate_of_mem hv, List.eq_replicate_of_mem fun w hw => hv w (hperm.mem_iff.mpr hw),
        hperm.length_eq]
    rw [hsame]
  · obtain ⟨l, rfl⟩ := exists_map_of_kind hcells
    obtain ⟨l', rfl⟩ := exists_map_of_kind fun w hw => hcells w (hperm.mem_iff.mpr hw)
    have hheld : l.Perm l' := (List.map_perm_map_iff cells.value_injective).mp hperm
    unfold aggregateValues
    cases kind with
    | count => rw [hperm.length_eq]
    | sum =>
      dsimp only
      rw [← hperm.all_eq]
      split
      · rename_i hnumeric
        rw [sumValues_perm hheld hnumeric]
      · rfl
    | mean =>
      dsimp only
      rw [← hperm.all_eq, hperm.length_eq]
      split
      · rename_i hnumeric
        rw [sumValues_perm hheld hnumeric]
      · rfl
    | min =>
      dsimp only
      rw [extremum_map CellKind.lt?_value, extremum_map CellKind.lt?_value, min?_perm hheld]
    | max =>
      have hgreatest : ∀ l : List cells.Carrier, extremum (fun w v => v.lt? w) (l.map cells.value) =
          (l.map OrderDual.toDual).min?.map (cells.value ∘ OrderDual.ofDual) := by
        intro l
        have hdual : ∀ a b : cells.Carrierᵒᵈ,
            ((cells.value ∘ OrderDual.ofDual) b).lt? ((cells.value ∘ OrderDual.ofDual) a) =
              some (decide (a < b)) := fun a b => CellKind.lt?_value _ _
        rw [← @extremum_map _ _ (fun w v => v.lt? w) _ hdual, List.map_map]
        rfl
      dsimp only
      rw [hgreatest, hgreatest, min?_perm (hheld.map _)]

/-! ## What an atom makes of a variable -/

variable {ctx : EvalCtx} {x : String}

/-- In the rows of a predicate every column has cells of one kind. -/
def TypedView (v : ViewFacts) : Prop :=
  ∀ p facts, v p = some facts → ∃ kinds : List CellKind, ∀ fact ∈ facts,
    List.Forall₂ (fun kind cell => Value.cellKind? cell = some kind) kinds fact

/-- The variable is unbound, or bound to the `None` that a match overwrites. -/
def Open (e : Env) (x : String) : Prop := ∀ v, Dict.get? e x = some v → v = .none

/-- What is made of a variable in a binding: a value stays, and an open variable stays as it is, or
gets a cell of the kind that `taken` says. -/
structure Fills (x : String) (taken : Option CellKind) (e e' : Env) : Prop where
  stays : ∀ v, Dict.get? e x = some v → v ≠ .none → Dict.get? e' x = some v
  kept : taken = none → Open e x → Dict.get? e' x = Dict.get? e x
  cell : ∀ kind, taken = some kind → Open e x →
    ∃ v, Dict.get? e' x = some v ∧ v.cellKind? = some kind

theorem Fills.same {e e' : Env} (h : Dict.get? e' x = Dict.get? e x) : Fills x none e e' where
  stays _ hv _ := h.trans hv
  kept _ _ := h
  cell _ hkind _ := by cases hkind

/-- The atom leaves the variable to the rows and to arithmetic: no `eq` has it as a side. -/
def TakesFromRows (x : String) : Atom → Prop
  | .cmp .eq lhs rhs => lhs ≠ .var x ∧ rhs ≠ .var x
  | .cmp .. | .pred .. | .inn .. | .builtin .. | .not _ | .ruleref .. => True

/-- The kind of the first column that has the variable. -/
def columnOf (x : String) : List Term → List CellKind → Option CellKind
  | .var y :: ts, kind :: kinds => if y = x then some kind else columnOf x ts kinds
  | _ :: ts, _ :: kinds => columnOf x ts kinds
  | [], _ | _, [] => none

/-- A variable is bound to a cell, before the rest of the columns is matched. -/
theorem Fills.of_set {taken : Option CellKind} {e e' : Env} {y : String} {cell : Value}
    {kind : CellKind} (h : Fills x taken (Dict.set e y cell) e') (hcell : cell.cellKind? = some kind)
    (hopen : y = x → Open e x) : Fills x (if y = x then some kind else taken) e e' := by
  by_cases hy : y = x
  · subst hy
    have hvalue : Dict.get? e' y = some cell := by
      apply h.stays cell (Dict.get?_set_self e y cell)
      rintro rfl
      cases hcell
    rw [if_pos rfl]
    exact {
      stays := fun v hv hne => absurd (hopen rfl v hv) hne
      kept := fun hnone => by cases hnone
      cell := fun k hk _ => ⟨cell, hvalue, hcell.trans hk⟩ }
  · have hget : Dict.get? (Dict.set e y cell) x = Dict.get? e x := Dict.get?_set_of_ne (Ne.symm hy)
    rw [if_neg hy]
    exact {
      stays := fun v hv hne => h.stays v (hget.trans hv) hne
      kept := fun hnone hopen => (h.kept hnone fun v hv => hopen v (hget.symm.trans hv)).trans hget
      cell := fun k hk hopen => h.cell k hk fun v hv => hopen v (hget.symm.trans hv) }

/-- A variable that has a value only lets the same cell pass. -/
theorem Fills.of_bound {taken : Option CellKind} {e e' : Env} {y : String} {v : Value}
    {kind : CellKind} (h : Fills x taken e e') (hbound : Dict.get? e y = some v) (hv : v ≠ .none) :
    Fills x (if y = x then some kind else taken) e e' := by
  by_cases hy : y = x
  · subst hy
    have hclosed : ¬ Open e y := fun hopen => hv (hopen v hbound)
    rw [if_pos rfl]
    exact {
      stays := h.stays
      kept := fun _ hopen => absurd hopen hclosed
      cell := fun _ _ hopen => absurd hopen hclosed }
  · rw [if_neg hy]
    exact h

theorem fills_matchTerms {terms : List Term} {kinds : List CellKind} {fact : Fact} {e e' : Env}
    (hfact : List.Forall₂ (fun kind cell => Value.cellKind? cell = some kind) kinds fact)
    (h : matchTerms terms fact e = some e') : Fills x (columnOf x terms kinds) e e' := by
  induction terms generalizing kinds fact e with
  | nil =>
    cases h
    exact .same rfl
  | cons t ts ih =>
    cases hfact with
    | nil =>
      have hnone : columnOf x (t :: ts) [] = none := by cases t <;> rfl
      have hsame : e = e' := by cases t <;> exact Option.some.inj h
      rw [hnone, hsame]
      exact .same rfl
    | cons hcell hcells =>
      cases t with
      | agg _ _ _ => cases h
      | const c =>
        simp only [matchTerms] at h
        split at h
        · exact ih hcells h
        · cases h
      | var y =>
        simp only [matchTerms] at h
        unfold columnOf
        split at h
        · rename_i hy
          refine (ih hcells h).of_set hcell ?_
          rintro rfl v hv
          rw [hy] at hv
          cases hv
        · -- a match overwrites `none`
          rename_i hy
          refine (ih hcells h).of_set hcell ?_
          rintro rfl v hv
          rw [hy, Option.some.injEq] at hv
          exact hv.symm
        · rename_i v hv hbound
          split at h
          · exact (ih hcells h).of_bound hbound hv
          · cases h

theorem mem_newlyBound {V : Scope} {a : Atom} (ha : TakesFromRows x a) (hx : x ∈ newlyBound V a) :
    (∃ p terms, a = .pred p terms) ∨ ∃ op args, a = .builtin op (.var x :: args) := by
  have hside : ∀ b t, x ∈ boundBySide b t → t = .var x := by
    intro b t ht
    cases t with
    | var y => cases b <;> simp_all [boundBySide]
    | const _ | agg _ _ _ => simp [boundBySide] at ht
  cases a with
  | pred p terms => exact .inl ⟨p, terms, rfl⟩
  | ruleref _ _ _ | inn _ _ | not _ => simp [newlyBound] at hx
  | builtin op args =>
    cases args with
    | nil => simp [newlyBound] at hx
    | cons z args =>
      rw [hside true z hx]
      exact .inr ⟨op, args, rfl⟩
  | cmp op l r =>
    cases op with
    | eq =>
      rcases Finset.mem_union.mp hx with hl | hr
      · exact absurd (hside _ _ hl) ha.1
      · exact absurd (hside _ _ hr) ha.2
    | ne | gt | ge | lt | le => simp [newlyBound] at hx

/-- An arithmetic atom gives its output an integer. -/
theorem fills_arith {op : BuiltinOp} {args : List Term} {e : Env} {out : List Env}
    (h : evalAtom ctx (.builtin op (.var x :: args)) [e] = .ok out) :
    ∀ e' ∈ out, Fills x (some .int) e e' := by
  simp only [evalAtom, evalArithAtom, collect_singleton, bind_ok_iff] at h
  obtain ⟨result, -, h⟩ := h
  cases result with
  | none =>
    cases h
    simp
  | some i =>
    simp only [resolveEvalTerms, bindOrCheckResult] at h
    cases hx : Dict.get? e x with
    | none =>
      rw [hx] at h
      cases h
      rw [List.forall_mem_singleton]
      exact {
        stays := fun v hv _ => by rw [hx] at hv; cases hv
        kept := fun hnone => by cases hnone
        cell := fun k hk _ => ⟨.int i, Dict.get?_set_self e x _, hk⟩ }
    | some v =>
      rw [hx] at h
      obtain ⟨j, hj, h⟩ := bind_ok_iff.mp h
      have hclosed : ¬ Open e x := by
        intro hopen
        rw [hopen v hx] at hj
        cases hj
      cases h
      intro e' he'
      have hsame : e' = e := by
        split at he'
        · exact List.mem_singleton.mp he'
        · cases he'
      rw [hsame]
      exact {
        stays := fun _ hv _ => hv
        kept := fun _ hopen => absurd hopen hclosed
        cell := fun _ _ hopen => absurd hopen hclosed }

/-- **What an atom makes of a variable depends on the atom alone.** -/
theorem exists_fills (hview : TypedView ctx.viewFacts) {a : Atom} (ha : TakesFromRows x a) :
    ∃ taken, ∀ e out, evalAtom ctx a [e] = .ok out → ∀ e' ∈ out, Fills x taken e e' := by
  by_cases hpred : ∃ p terms, a = .pred p terms
  · obtain ⟨p, terms, rfl⟩ := hpred
    cases hrows : ctx.viewFacts p with
    | none =>
      refine ⟨none, fun e out h => ?_⟩
      obtain ⟨facts, hfacts, -⟩ := evalPred_ok_iff.mp h
      rw [hrows] at hfacts
      cases hfacts
    | some facts =>
      obtain ⟨kinds, hkinds⟩ := hview p facts hrows
      refine ⟨columnOf x terms kinds, fun e out h => ?_⟩
      obtain ⟨facts', hfacts', -, rfl⟩ := evalPred_ok_iff.mp h
      rw [hrows, Option.some.injEq] at hfacts'
      subst hfacts'
      intro e' he'
      rw [List.flatMap_singleton] at he'
      obtain ⟨fact, hfact, hmatch⟩ := List.mem_filterMap.mp he'
      rw [predCandidatesForEnv_eq_filter, List.mem_filter] at hfact
      exact fills_matchTerms (hkinds fact hfact.1) hmatch
  · by_cases harith : ∃ op args, a = .builtin op (.var x :: args)
    · obtain ⟨op, args, rfl⟩ := harith
      exact ⟨some .int, fun e out h => fills_arith h⟩
    · refine ⟨none, fun e out h => ?_⟩
      have houtcome := outcome_evalAtom (fun p terms heq => hpred ⟨p, terms, heq⟩) h
      cases houtcome with
      | drop => simp
      | keep _ =>
        rw [List.forall_mem_singleton]
        exact .same rfl
      | bind y v hy hscope =>
        rw [List.forall_mem_singleton]
        have hnew : y ∈ newlyBound e.scope a := by
          have hmem : y ∈ updateBoundVarsForPlan e.scope a := hscope ▸ Finset.mem_insert_self y _
          exact (Finset.mem_union.mp hmem).resolve_left hy
        refine .same (Dict.get?_set_of_ne ?_)
        rintro rfl
        rcases mem_newlyBound ha hnew with h | h
        · exact hpred h
        · exact harith h

/-! ## What a filter makes of a variable -/

/-- The variable is unbound in all bindings, or has one value in all, or a cell of one kind in each. -/
def OneKindAt (x : String) (envs : List Env) : Prop :=
  (∃ value, ∀ e ∈ envs, Dict.get? e x = value) ∨
    ∃ kind, ∀ e ∈ envs, ∃ v, Dict.get? e x = some v ∧ v.cellKind? = some kind

theorem oneKindAt_evalAtom (hview : TypedView ctx.viewFacts) {a : Atom} (ha : TakesFromRows x a)
    {envs out : List Env} (h : evalAtom ctx a envs = .ok out) (hx : OneKindAt x envs) :
    OneKindAt x out := by
  obtain ⟨taken, htaken⟩ := exists_fills hview ha
  obtain ⟨f, hf, rfl⟩ := evalAtom_pointwise h
  have hfills : ∀ e' ∈ envs.flatMap f, ∃ e ∈ envs, Fills x taken e e' := by
    intro e' he'
    obtain ⟨e, he, hfe⟩ := List.mem_flatMap.mp he'
    exact ⟨e, he, htaken e _ (hf e he) e' hfe⟩
  rcases hx with ⟨value, hvalue⟩ | ⟨kind, hkind⟩
  · by_cases hopen : ∀ v, value = some v → v = .none
    · have hall : ∀ e ∈ envs, Open e x := fun e he v hv => hopen v ((hvalue e he).symm.trans hv)
      cases taken with
      | none =>
        refine .inl ⟨value, fun e' he' => ?_⟩
        obtain ⟨e, he, hfill⟩ := hfills e' he'
        rw [hfill.kept rfl (hall e he), hvalue e he]
      | some kind =>
        refine .inr ⟨kind, fun e' he' => ?_⟩
        obtain ⟨e, he, hfill⟩ := hfills e' he'
        exact hfill.cell kind rfl (hall e he)
    · obtain ⟨v, hv⟩ := not_forall.mp hopen
      obtain ⟨rfl, hne⟩ := Classical.not_imp.mp hv
      refine .inl ⟨some v, fun e' he' => ?_⟩
      obtain ⟨e, he, hfill⟩ := hfills e' he'
      exact hfill.stays v (hvalue e he) hne
  · refine .inr ⟨kind, fun e' he' => ?_⟩
    obtain ⟨e, he, hfill⟩ := hfills e' he'
    obtain ⟨v, hv, hcell⟩ := hkind e he
    refine ⟨v, hfill.stays v hv ?_, hcell⟩
    rintro rfl
    cases hcell

/-- **The matches of a filter that takes a variable from the rows** have values of one kind for it. -/
theorem oneKindAt_evalBody (hview : TypedView ctx.viewFacts) {filter : List Atom}
    (hfilter : ∀ a ∈ filter, TakesFromRows x a) {e : Env} {matched : List Env}
    (h : evalBody ctx filter [e] = .ok matched) : OneKindAt x matched := by
  have run : ∀ {as : List Atom} {envs out : List Env}, (∀ a ∈ as, TakesFromRows x a) →
      OneKindAt x envs → runPlanned (evalItems ctx as) envs = .ok out → OneKindAt x out := by
    intro as
    induction as with
    | nil =>
      intro envs out _ hx h
      cases h
      exact hx
    | cons a as ih =>
      intro envs out has hx h
      rw [List.forall_mem_cons] at has
      simp only [evalItems, runPlanned, bind_ok_iff] at h
      obtain ⟨envs', henvs', h⟩ := h
      split at h
      · cases h
        exact .inl ⟨none, by simp⟩
      · exact ih has.2 (oneKindAt_evalAtom hview has.1 henvs' hx) h
  obtain ⟨p, hplan, hrun⟩ := evalBody_ok_iff.mp h
  have hperm := planBodyAtoms_perm hplan
  exact run (fun a ha => hfilter a (hperm.mem_iff.mp ha)) (.inl ⟨_, List.forall_mem_singleton.mpr rfl⟩)
    hrun

/-! ## Aggregates -/

/-- The aggregate counts, or its target is a constant or a variable that its filter takes from the
rows. -/
def ReadsCells (kind : AggKind) (target : Option Term) (filter : List Atom) : Prop :=
  kind = .count ∨ (∃ v, target = some (.const v)) ∨
    ∃ x, target = some (.var x) ∧ ∀ a ∈ filter, TakesFromRows x a

theorem targetValues_eq {target : TermSem} {f : Env → Value} {envs : List Env}
    (h : ∀ e ∈ envs, target e = .ok (.value (f e))) :
    targetValues target envs = .ok (some (envs.map f)) := by
  induction envs with
  | nil => rfl
  | cons e envs ih =>
    rw [List.forall_mem_cons] at h
    rw [targetValues, h.1, ok_bind, ih h.2]
    rfl

/-- Targets with values of one kind. -/
theorem aggregateOf_perm {floats : FloatOps} {kind : AggKind} {target : TermSem} {f : Env → Value}
    {matched matched' : List Env} (hperm : matched.Perm matched')
    (hvalues : ∀ e ∈ matched, target e = .ok (.value (f e))) (hkind : OneKind (matched.map f)) :
    aggregateOf floats kind target matched = aggregateOf floats kind target matched' := by
  unfold aggregateOf
  rw [hperm.length_eq, hperm.isEmpty_eq, targetValues_eq hvalues,
    targetValues_eq fun e he => hvalues e (hperm.mem_iff.mpr he)]
  split
  · rfl
  · split
    · rfl
    · exact aggregateValues_perm hkind (hperm.map f)

theorem aggregateOf_unbound {floats : FloatOps} {kind : AggKind} {x : String} {matched : List Env}
    (h : ∀ e ∈ matched, Dict.get? e x = none) :
    aggregateOf floats kind (resolveTarget ctx (some (.var x))) matched =
      if kind = .count then .ok (.value (.int matched.length))
      else if matched.isEmpty then .ok (if kind = .sum then .value (.int 0) else .noValue)
      else .ok .noValue := by
  unfold aggregateOf
  cases matched with
  | nil => rfl
  | cons e matched =>
    have hunbound : resolveTarget ctx (some (.var x)) e = .ok .unbound := by
      show Except.ok (resolveVar e x) = .ok .unbound
      unfold resolveVar
      rw [h e List.mem_cons_self]
    rw [targetValues, hunbound]
    rfl

/-- **An aggregate over stored cells does not read the order of its matches.** -/
theorem orderBlind_of_readsCells (hview : TypedView ctx.viewFacts) : ReadsCells ≤ OrderBlind ctx := by
  intro kind target filter h env matched matched' hmatched hperm
  have hsame : aggregateOf ctx.floats kind (resolveTarget ctx target) matched =
      aggregateOf ctx.floats kind (resolveTarget ctx target) matched' := by
    rcases h with rfl | ⟨v, rfl⟩ | ⟨x, rfl, hfilter⟩
    · unfold aggregateOf
      rw [if_pos rfl, if_pos rfl, hperm.length_eq]
    · refine aggregateOf_perm (f := fun _ => v) hperm (fun _ _ => rfl) (.inl ⟨v, ?_⟩)
      simp
    · have hbound : ∀ e v, Dict.get? e x = some v →
          resolveTarget ctx (some (.var x)) e = .ok (.value ((Dict.get? e x).getD .none)) := by
        intro e v hv
        show Except.ok (resolveVar e x) = .ok (.value ((Dict.get? e x).getD .none))
        unfold resolveVar
        rw [hv]
        rfl
      rcases oneKindAt_evalBody hview hfilter hmatched with ⟨value, hvalue⟩ | ⟨cells, hcells⟩
      · cases value with
        | none =>
          rw [aggregateOf_unbound hvalue,
            aggregateOf_unbound fun e he => hvalue e (hperm.mem_iff.mpr he),
            hperm.length_eq, hperm.isEmpty_eq]
        | some v =>
          refine aggregateOf_perm hperm (fun e he => hbound e v (hvalue e he)) (.inl ⟨v, ?_⟩)
          intro w hw
          obtain ⟨e, he, rfl⟩ := List.mem_map.mp hw
          rw [hvalue e he, Option.getD_some]
      · refine aggregateOf_perm (f := fun e => (Dict.get? e x).getD .none) hperm (fun e he => ?_)
          (.inr ⟨cells, ?_⟩)
        · obtain ⟨v, hv, -⟩ := hcells e he
          exact hbound e v hv
        · intro w hw
          obtain ⟨e, he, rfl⟩ := List.mem_map.mp hw
          obtain ⟨v, hv, hkind⟩ := hcells e he
          rw [hv, Option.getD_some, hkind]
  rw [hsame]
  exact Together.refl (fun _ => rfl) _

end FactGraph.Rules
