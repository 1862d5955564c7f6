import FactGraph.Rules.Flat

/-!
# Clauses over typed sources

A flat clause is often compiled from a query over sources of its own: columns, ports, nodes of a
path. Every source has a name, which is the variable it becomes, and the values it takes each have
the cell they have in a view. When the names differ, the cells of a source are of one kind and tell
its values apart, and the view has for every atom the rows of the values the atom is about,
evaluation returns the assignments that solve the query, each once
(`SourceClause.Faithful.answer`).
-/

namespace FactGraph.Rules

variable {S T : Type}

/-- How sources and values are spelled: the variable of a source, and the cell of a value. -/
structure Coding (S T : Type) where
  name : S → String
  cell : T → Value

/-- A predicate over sources, and what it says of their values. -/
structure SourceAtom (S T : Type) where
  predicateId : String
  sources : List S
  holds : List T → Prop

/-- A comparison of a source with a literal, and what it says of the value. -/
structure SourceTest (S T : Type) where
  op : CmpOp
  source : S
  value : Value
  holds : T → Prop

structure SourceClause (S T : Type) where
  slots : List S
  atoms : List (SourceAtom S T)
  tests : List (SourceTest S T)

/-- The flat clause of a clause over sources. -/
def SourceClause.flat (c : Coding S T) (q : SourceClause S T) : FlatClause where
  rows := q.atoms.map fun a => (a.predicateId, a.sources.map c.name)
  tests := q.tests.map fun t => ⟨t.op, c.name t.source, t.value⟩

/-- **An assignment solves the clause.** -/
structure SourceClause.Solves (q : SourceClause S T) (α : S → Option T) : Prop where
  domain : ∀ s, (α s).isSome ↔ s ∈ q.slots
  atoms : ∀ a ∈ q.atoms, ∃ us, a.holds us ∧ a.sources.map α = us.map some
  tests : ∀ t ∈ q.tests, ∃ u, α t.source = some u ∧ t.holds u

/-- The view and the literals say of cells what the clause says of values, where `fits` are the
values a source takes in the view and `kind` is the kind of their cells. -/
structure SourceClause.Faithful (q : SourceClause S T) (c : Coding S T) (fits : S → T → Prop)
    (kind : S → Kind) (ctx : EvalCtx) : Prop where
  nonempty : q.atoms ≠ []
  named : ∀ a ∈ q.atoms, a.predicateId ≠ "" ∧ a.sources ≠ []
  covered : ∀ s, s ∈ q.slots ↔ ∃ a ∈ q.atoms, s ∈ a.sources
  plain : ∀ s ∈ q.slots, PlainVar (c.name s)
  distinct : ∀ s ∈ q.slots, ∀ s' ∈ q.slots, c.name s = c.name s' → s = s'
  view : ∀ a ∈ q.atoms, ∃ facts, ctx.viewFacts a.predicateId = some facts ∧
    ∀ fact, fact ∈ facts ↔ ∃ us, a.holds us ∧ fact = us.map c.cell
  typed : ∀ a ∈ q.atoms, ∀ us, a.holds us → List.Forall₂ fits a.sources us
  told : ∀ s ∈ q.slots, ∀ t u, fits s t → fits s u → c.cell t = c.cell u → t = u
  kinds : ∀ s ∈ q.slots, ∀ t, fits s t → (kind s).Holds (c.cell t)
  tests : ∀ t ∈ q.tests, t.source ∈ q.slots ∧
    FlatTest.Applies ⟨t.op, "", t.value⟩ (fun _ => kind t.source) ∧
    ∀ u, fits t.source u → (TestHolds t.op (c.cell u) t.value ↔ t.holds u)
  cells : NoNoneCells ctx.viewFacts

variable {c : Coding S T} {q : SourceClause S T} {fits : S → T → Prop} {kind : S → Kind}
variable {ctx : EvalCtx} {α β : S → Option T}

namespace SourceClause

/-! ## Values of sources -/

/-- The sources of an atom have values they take. -/
theorem typed_of_atom {ss : List S} {us : List T} (hα : ss.map α = us.map some)
    (htyped : List.Forall₂ fits ss us) : ∀ s ∈ ss, ∃ u, α s = some u ∧ fits s u := by
  induction htyped with
  | nil => simp
  | cons head _ ih =>
    rw [List.map_cons, List.map_cons, List.cons.injEq] at hα
    rw [List.forall_mem_cons]
    exact ⟨⟨_, hα.1, head⟩, ih hα.2⟩

/-- A solution gives every source a value it takes. -/
theorem Solves.typed (hα : q.Solves α) (h : q.Faithful c fits kind ctx) {s : S} {u : T}
    (hs : α s = some u) : fits s u := by
  have hslot : s ∈ q.slots := (hα.domain s).mp (by rw [hs]; rfl)
  obtain ⟨a, ha, hmem⟩ := (h.covered s).mp hslot
  obtain ⟨us, hholds, heq⟩ := hα.atoms a ha
  obtain ⟨v, hv, hfits⟩ := typed_of_atom heq (h.typed a ha us hholds) s hmem
  rw [hs] at hv
  cases hv
  exact hfits

/-! ## Bindings -/

/-- The binding of an assignment. -/
def binding (q : SourceClause S T) (c : Coding S T) (α : S → Option T) : Binding :=
  fun x => (q.slots.find? fun s => c.name s = x).bind fun s => (α s).map c.cell

theorem binding_name (h : q.Faithful c fits kind ctx) {s : S} (hs : s ∈ q.slots) :
    q.binding c α (c.name s) = (α s).map c.cell := by
  unfold binding
  cases hfind : q.slots.find? fun s' => c.name s' = c.name s with
  | none =>
    have := List.find?_eq_none.mp hfind s hs
    simp at this
  | some s' =>
    have hname : c.name s' = c.name s := by simpa using List.find?_some hfind
    obtain rfl := h.distinct s' (List.mem_of_find?_eq_some hfind) s hs hname
    rfl

theorem binding_other {x : String} (hx : ∀ s ∈ q.slots, c.name s ≠ x) :
    q.binding c α x = none := by
  unfold binding
  rw [List.find?_eq_none.mpr (by simpa using hx)]
  rfl

theorem mem_vars (h : q.Faithful c fits kind ctx) {x : String} :
    x ∈ (q.flat c).vars ↔ ∃ s ∈ q.slots, c.name s = x := by
  unfold FlatClause.vars flat
  rw [List.mem_toFinset, List.mem_flatMap]
  constructor
  · intro hx
    obtain ⟨r, hr, hx⟩ := hx
    obtain ⟨a, ha, rfl⟩ := List.mem_map.mp hr
    obtain ⟨s, hs, rfl⟩ := List.mem_map.mp hx
    exact ⟨s, (h.covered s).mpr ⟨a, ha, hs⟩, rfl⟩
  · intro hx
    obtain ⟨s, hs, rfl⟩ := hx
    obtain ⟨a, ha, hmem⟩ := (h.covered s).mp hs
    exact ⟨_, List.mem_map_of_mem ha, List.mem_map_of_mem hmem⟩

/-- Two solutions with one binding are the same. -/
theorem Solves.eq_of_binding (hα : q.Solves α) (hβ : q.Solves β) (h : q.Faithful c fits kind ctx)
    (heq : q.binding c α = q.binding c β) : α = β := by
  funext s
  by_cases hs : s ∈ q.slots
  · obtain ⟨u, hu⟩ := Option.isSome_iff_exists.mp ((hα.domain s).mpr hs)
    obtain ⟨v, hv⟩ := Option.isSome_iff_exists.mp ((hβ.domain s).mpr hs)
    have hcell := congrFun heq (c.name s)
    rw [binding_name h hs, binding_name h hs, hu, hv, Option.map_some, Option.map_some,
      Option.some.injEq] at hcell
    rw [hu, hv, h.told s hs u v (hα.typed h hu) (hβ.typed h hv) hcell]
  · have hnone : ∀ {γ : S → Option T}, q.Solves γ → γ s = none := by
      intro γ hγ
      have := mt (hγ.domain s).mp hs
      simpa using this
    rw [hnone hα, hnone hβ]

/-- The binding of a solution solves the flat clause. -/
theorem Solves.flat (hα : q.Solves α) (h : q.Faithful c fits kind ctx) :
    (q.flat c).Solves ctx (q.binding c α) where
  domain := by
    intro x
    rw [mem_vars h]
    constructor
    · intro hx
      obtain ⟨s, hs, rfl⟩ := hx
      rw [binding_name h hs, Option.isSome_map]
      exact (hα.domain s).mpr hs
    · intro hx
      by_contra hnone
      have hother : ∀ s ∈ q.slots, c.name s ≠ x := fun s hs hname => hnone ⟨s, hs, hname⟩
      rw [binding_other hother] at hx
      cases hx
  rows := by
    intro r hr
    obtain ⟨a, ha, rfl⟩ := List.mem_map.mp hr
    obtain ⟨us, hholds, heq⟩ := hα.atoms a ha
    obtain ⟨facts, hfacts, hmem⟩ := h.view a ha
    refine ⟨facts, hfacts, us.map c.cell, (hmem _).mpr ⟨us, hholds, rfl⟩, ?_⟩
    have hmap : a.sources.map (fun s => q.binding c α (c.name s)) =
        a.sources.map fun s => (α s).map c.cell := by
      apply List.map_congr_left
      intro s hs
      exact binding_name h ((h.covered s).mpr ⟨a, ha, hs⟩)
    have hcells := congrArg (List.map (Option.map c.cell)) heq
    rw [List.map_map, List.map_map] at hcells
    rw [List.map_map, List.map_map]
    exact hmap.trans hcells
  tests := by
    intro t hflat
    obtain ⟨t, ht, rfl⟩ := List.mem_map.mp hflat
    obtain ⟨u, hu, hholds⟩ := hα.tests t ht
    obtain ⟨hslot, _, hiff⟩ := h.tests t ht
    refine ⟨c.cell u, ?_, (hiff u (hα.typed h hu)).mpr hholds⟩
    rw [binding_name h hslot, hu]
    rfl

/-- What solves the flat clause is the binding of a solution. -/
theorem exists_solves_of_flat (h : q.Faithful c fits kind ctx) {σ : Binding}
    (hσ : (q.flat c).Solves ctx σ) : ∃ α, q.Solves α ∧ q.binding c α = σ := by
  -- the row an atom joins with gives its sources values
  have hrow : ∀ a ∈ q.atoms, ∃ us, a.holds us ∧
      a.sources.map (fun s => σ (c.name s)) = us.map fun u => some (c.cell u) := by
    intro a ha
    obtain ⟨facts, hfacts, fact, hmem, heq⟩ := hσ.rows _ (List.mem_map_of_mem ha)
    obtain ⟨facts', hfacts', hiff⟩ := h.view a ha
    rw [hfacts'] at hfacts
    cases hfacts
    obtain ⟨us, hholds, rfl⟩ := (hiff fact).mp hmem
    refine ⟨us, hholds, ?_⟩
    rw [List.map_map, List.map_map] at heq
    exact heq
  have hvalue : ∀ s ∈ q.slots, ∃ u, fits s u ∧ σ (c.name s) = some (c.cell u) := by
    intro s hs
    obtain ⟨a, ha, hmem⟩ := (h.covered s).mp hs
    obtain ⟨us, hholds, heq⟩ := hrow a ha
    have htyped := h.typed a ha us hholds
    clear hholds
    generalize a.sources = ss at hmem heq htyped
    induction htyped with
    | nil => cases hmem
    | cons head _ ih =>
      rw [List.map_cons, List.map_cons, List.cons.injEq] at heq
      rcases List.mem_cons.mp hmem with rfl | hmem
      · exact ⟨_, head, heq.1⟩
      · exact ih hmem heq.2
  classical
  let α : S → Option T := fun s => if hs : s ∈ q.slots then some (hvalue s hs).choose else none
  have hα : ∀ {s u}, s ∈ q.slots → fits s u → σ (c.name s) = some (c.cell u) →
      α s = some u := by
    intro s u hs hfits hcell
    show (if hs : s ∈ q.slots then some (hvalue s hs).choose else none) = some u
    rw [dif_pos hs]
    obtain ⟨hd, hc⟩ := (hvalue s hs).choose_spec
    have hsame := Option.some.inj (hcell.symm.trans hc)
    rw [h.told s hs _ u hd hfits hsame.symm]
  refine ⟨α, ⟨?_, ?_, ?_⟩, ?_⟩
  · intro s
    show (if hs : s ∈ q.slots then some (hvalue s hs).choose else none).isSome ↔ _
    split <;> simp_all
  · intro a ha
    obtain ⟨us, hholds, heq⟩ := hrow a ha
    refine ⟨us, hholds, ?_⟩
    have htyped := h.typed a ha us hholds
    have hslots : ∀ s ∈ a.sources, s ∈ q.slots := fun s hs => (h.covered s).mpr ⟨a, ha, hs⟩
    clear hholds
    generalize a.sources = ss at heq htyped hslots
    induction htyped with
    | nil => rfl
    | cons head _ ih =>
      rw [List.map_cons, List.map_cons, List.cons.injEq] at heq
      rw [List.forall_mem_cons] at hslots
      rw [List.map_cons, List.map_cons, hα hslots.1 head heq.1, ih heq.2 hslots.2]
  · intro t ht
    obtain ⟨hslot, _, hiff⟩ := h.tests t ht
    obtain ⟨v, hv, htest⟩ := hσ.tests _ (List.mem_map_of_mem ht)
    obtain ⟨u, hfits, hcell⟩ := hvalue t.source hslot
    dsimp only at hv
    rw [hcell, Option.some.injEq] at hv
    subst hv
    exact ⟨u, hα hslot hfits hcell, (hiff u hfits).mp htest⟩
  · funext x
    by_cases hx : ∃ s ∈ q.slots, c.name s = x
    · obtain ⟨s, hs, rfl⟩ := hx
      obtain ⟨u, hfits, hcell⟩ := hvalue s hs
      rw [binding_name h hs, hα hs hfits hcell, hcell]
      rfl
    · have hother : ∀ s ∈ q.slots, c.name s ≠ x := fun s hs hname => hx ⟨s, hs, hname⟩
      have hnone : σ x = none := by
        have := mt (hσ.domain x).mpr (mt (mem_vars h).mp hx)
        simpa using this
      rw [binding_other hother, hnone]

/-! ## Evaluation -/

/-- The kind of the cells of a variable. -/
def kindOf (q : SourceClause S T) (c : Coding S T) (kind : S → Kind) (x : String) : Kind :=
  match q.slots.find? fun s => c.name s = x with
  | some s => kind s
  | none => .text

theorem kindOf_name (h : q.Faithful c fits kind ctx) {s : S} (hs : s ∈ q.slots) :
    q.kindOf c kind (c.name s) = kind s := by
  unfold kindOf
  cases hfind : q.slots.find? fun s' => c.name s' = c.name s with
  | none =>
    have := List.find?_eq_none.mp hfind s hs
    simp at this
  | some s' =>
    have hname : c.name s' = c.name s := by simpa using List.find?_some hfind
    rw [h.distinct s' (List.mem_of_find?_eq_some hfind) s hs hname]

/-- The cells of the values of sources are of the kinds of the variables. -/
theorem fits_of_typed (h : q.Faithful c fits kind ctx) {ss : List S} (hss : ∀ s ∈ ss, s ∈ q.slots)
    {us : List T} (htyped : List.Forall₂ fits ss us) (V : Scope) :
    CellsFit (q.kindOf c kind) V (ss.map c.name) (us.map c.cell) := by
  induction htyped generalizing V with
  | nil => trivial
  | cons head _ ih =>
    rw [List.forall_mem_cons] at hss
    refine ⟨.inl ?_, ih hss.2 _⟩
    rw [kindOf_name h hss.1]
    exact h.kinds _ hss.1 _ head

theorem rowsFit (h : q.Faithful c fits kind ctx) {as : List (SourceAtom S T)} (has : ∀ a ∈ as, a ∈ q.atoms)
    (V : Scope) :
    RowsFit ctx (q.kindOf c kind) V (as.map fun a => (a.predicateId, a.sources.map c.name)) := by
  induction as generalizing V with
  | nil => trivial
  | cons a as ih =>
    rw [List.forall_mem_cons] at has
    refine ⟨?_, ih has.2 _⟩
    obtain ⟨facts, hfacts, hiff⟩ := h.view a has.1
    refine ⟨facts, hfacts, ?_⟩
    intro fact hfact
    obtain ⟨us, hholds, rfl⟩ := (hiff fact).mp hfact
    have htyped := h.typed a has.1 us hholds
    refine ⟨by simpa using htyped.length_eq.symm, ?_⟩
    exact fits_of_typed h (fun s hs => (h.covered s).mpr ⟨a, has.1, hs⟩) htyped V

theorem Faithful.runs (h : q.Faithful c fits kind ctx) : (q.flat c).Runs ctx (q.kindOf c kind) where
  nonempty := by
    intro hnil
    exact h.nonempty (List.map_eq_nil_iff.mp hnil)
  named := by
    intro r hr
    obtain ⟨a, ha, rfl⟩ := List.mem_map.mp hr
    obtain ⟨hid, hsources⟩ := h.named a ha
    refine ⟨hid, fun hnil => hsources (List.map_eq_nil_iff.mp hnil), ?_⟩
    intro x hx
    obtain ⟨s, hs, rfl⟩ := List.mem_map.mp hx
    exact h.plain s ((h.covered s).mpr ⟨a, ha, hs⟩)
  fit := rowsFit h (fun _ ha => ha) ∅
  tests := by
    intro t hflat
    obtain ⟨t, ht, rfl⟩ := List.mem_map.mp hflat
    obtain ⟨hslot, happlies, _⟩ := h.tests t ht
    refine ⟨(mem_vars h).mpr ⟨t.source, hslot, rfl⟩, happlies.1, ?_⟩
    rw [kindOf_name h hslot]
    exact happlies.2
  cells := h.cells

theorem exists_forall₂ {A B : Type} {R : A → B → Prop} {as : List A} (h : ∀ a ∈ as, ∃ b, R a b) :
    ∃ bs, List.Forall₂ R as bs := by
  induction as with
  | nil => exact ⟨[], .nil⟩
  | cons a as ih =>
    rw [List.forall_mem_cons] at h
    obtain ⟨b, hb⟩ := h.1
    obtain ⟨bs, hbs⟩ := ih h.2
    exact ⟨b :: bs, .cons hb hbs⟩

/-- **The clause is answered**: the evaluation returns one binding for each solution. -/
theorem Faithful.answer (h : q.Faithful c fits kind ctx) :
    ∃ out, evaluateWhere ctx (.and (q.flat c).atoms) = .ok out ∧
      ∃ as : List (S → Option T), as.Nodup ∧ (∀ α, q.Solves α ↔ α ∈ as) ∧
        List.Forall₂ (fun e α => ∀ s ∈ q.slots, e.binding (c.name s) = (α s).map c.cell) out as := by
  obtain ⟨out, hout, hmem, hdistinct⟩ := h.runs.answer
  have hsolution : ∀ e ∈ out, ∃ α, q.Solves α ∧ q.binding c α = e.binding := by
    intro e he
    exact exists_solves_of_flat h ((hmem e.binding).mpr ⟨e, he, rfl⟩)
  obtain ⟨as, has⟩ := exists_forall₂ hsolution
  refine ⟨out, hout, as, ?_, ?_, ?_⟩
  · unfold List.Nodup
    clear hmem hsolution hout
    induction has with
    | nil => exact .nil
    | @cons e α out as heα has ih =>
      rw [List.pairwise_cons] at hdistinct ⊢
      refine ⟨?_, ih hdistinct.2⟩
      intro β hβ hsame
      subst hsame
      obtain ⟨e', he', _, hbinding⟩ := Check.mem_of_forall₂ has hβ
      exact hdistinct.1 e' he' (heα.2.symm.trans hbinding)
  · intro α
    constructor
    · intro hα
      obtain ⟨e, he, hbinding⟩ := (hmem _).mp (hα.flat h)
      obtain ⟨β, hβ, hsolves, heq⟩ := Check.image_of_forall₂ has he
      rwa [hα.eq_of_binding hsolves h (hbinding.symm.trans heq.symm)]
    · intro hα
      obtain ⟨e, _, hsolves, _⟩ := Check.mem_of_forall₂ has hα
      exact hsolves
  · refine has.imp ?_
    intro e α heα s hs
    rw [← heα.2, binding_name h hs]

end SourceClause

end FactGraph.Rules
