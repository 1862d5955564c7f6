import FactGraph.Scenario.Normalized
import FactGraph.Scenario.Passes

/-!
# What the passes leave

A run of turns is the run of their edits (`Steps`). Which rows an intent takes out does not depend on
the state, so a row of the baseline is in the end there exactly if no intent of the plan takes it out
(`Survives`); every other row was put in by an intent (`Outcome`).
-/

namespace FactGraph.Scenario

open Protocol Store Check Entity

/-! ## Runs of turns -/

/-- The turns that lead from a state to another, with their edits and operations. -/
inductive Steps : Progress → List (EditLog.Edit String Row × ResolvedOperation) → Progress → Prop
  | nil (s : Progress) : Steps s [] s
  | cons {s s₁ s' : Progress} {e : EditLog.Edit String Row} {o : ResolvedOperation}
      {log : List (EditLog.Edit String Row × ResolvedOperation)} (head : Step s s₁ e o)
      (tail : Steps s₁ log s') : Steps s ((e, o) :: log) s'

section Steps

variable {s s' s'' : Progress} {log log' : List (EditLog.Edit String Row × ResolvedOperation)}

theorem Steps.append (h : Steps s log s') (h' : Steps s' log' s'') : Steps s (log ++ log') s'' := by
  induction h with
  | nil s => exact h'
  | cons head _ ih => exact .cons head (ih h')

theorem Steps.state (h : Steps s log s') :
    s'.relation.state = EditLog.run (log.map Prod.fst) s.relation.state := by
  induction h with
  | nil s => rfl
  | cons head _ ih => rw [ih, head.state, List.map_cons, EditLog.run]

theorem Steps.predicates (h : Steps s log s') (p : String) :
    p ∈ s'.relation.predicates ↔ p ∈ s.relation.predicates := by
  induction h with
  | nil s => rfl
  | cons head _ ih => rw [ih, head.predicates]

theorem Steps.resolved (h : Steps s log s') : s'.resolved = s.resolved ++ log.map Prod.snd := by
  induction h with
  | nil s => simp
  | cons head _ ih => rw [ih, head.resolved, List.map_cons, List.append_assoc, List.singleton_append]

theorem Steps.ids (h : Steps s log s') (w : String) :
    w ∈ s'.syntheticIds ↔ w ∈ s.syntheticIds ∨ ∃ x ∈ log, w ∈ x.2.syntheticWitnessIds := by
  induction h with
  | nil s => simp
  | cons head _ ih => simp only [ih, head.ids, List.mem_cons, exists_eq_or_imp, or_assoc]

theorem Steps.mem_rows (h : Steps s log s') {p : String} {row : Row} :
    row ∈ s'.relation.rows p ↔ (row ∈ s.relation.rows p ∧ ∀ x ∈ log, ¬x.1.gone p row) ∨
      EditLog.Added p row (log.map Prod.fst) := by
  have hp : row ∈ s'.relation.state p ↔
      row ∈ EditLog.run (log.map Prod.fst) s.relation.state p := by rw [h.state]
  rw [EditLog.mem_run, List.forall_mem_map] at hp
  exact hp

/-- The synthetic ids of the operations are those of the rows put in. -/
theorem Steps.synthetic (h : Steps s log s') :
    ∀ x ∈ log, ∀ w, w ∈ x.2.syntheticWitnessIds ↔ w ∈ x.1.ids (·.asrtId) := by
  induction h with
  | nil s =>
    intro x hx
    cases hx
  | cons head _ ih => exact List.forall_mem_cons.mpr ⟨head.synthetic, ih⟩

/-- The ids noted as masked are those of the rows taken out. -/
theorem Steps.masked (h : Steps s log s') (w : String) :
    (∃ x ∈ log, w ∈ x.2.maskedWitnessIds) ↔
      EditLog.Masked (·.asrtId) w (log.map Prod.fst) s.relation.state := by
  induction h with
  | nil s => simp [EditLog.Masked]
  | cons head _ ih =>
    simp only [List.mem_cons, exists_eq_or_imp]
    rw [ih, head.masked, head.state, List.map_cons, EditLog.Masked]

/-- A row that is put in has a synthetic id. -/
theorem Steps.id_of_added (h : Steps s log s') {p : String} {row : Row}
    (hadded : EditLog.Added p row (log.map Prod.fst)) : row.asrtId ∈ s'.syntheticIds := by
  obtain ⟨e, he, hadd⟩ := hadded.exists_mem
  obtain ⟨x, hx, rfl⟩ := List.mem_map.mp he
  have hid : row.asrtId ∈ x.2.syntheticWitnessIds :=
    (h.synthetic x hx row.asrtId).mpr ⟨p, row, hadd, rfl⟩
  exact (h.ids row.asrtId).mpr (.inr ⟨x, hx, hid⟩)

/-- Turns that each make a step make a run of steps. -/
theorem Steps.of_foldlM {ι : Type} {f : Progress → ι → Except Fault Progress} {is : List ι}
    {P : ι → EditLog.Edit String Row × ResolvedOperation → Prop} {G : ι → Progress → Prop}
    (hstep : ∀ i ∈ is, ∀ s s', G i s → f s i = .ok s' → ∃ e o, Step s s' e o ∧ P i (e, o))
    (hkept : ∀ i ∈ is, ∀ s s', (∀ p, p ∈ s'.relation.predicates ↔ p ∈ s.relation.predicates) →
      G i s → G i s')
    (hs : ∀ i ∈ is, G i s) (h : is.foldlM f s = .ok s') :
    ∃ log, Steps s log s' ∧ List.Forall₂ P is log := by
  induction is generalizing s with
  | nil =>
    cases h
    exact ⟨[], .nil _, .nil⟩
  | cons i is ih =>
    rw [List.foldlM_cons] at h
    obtain ⟨s₁, hi, h⟩ := bind_ok_iff.mp h
    rw [List.forall_mem_cons] at hstep hkept hs
    obtain ⟨e, o, head, hP⟩ := hstep.1 s s₁ hs.1 hi
    obtain ⟨log, tail, hall⟩ := ih hstep.2 hkept.2
      (fun j hj => hkept.2 j hj s s₁ head.predicates (hs.2 j hj)) h
    exact ⟨(e, o) :: log, .cons head tail, .cons hP hall⟩

end Steps

/-! ## The passes -/

/-- What the turn of an intent is in the log of its pass. -/
def AssertionIntent.Logged (i : AssertionIntent)
    (x : EditLog.Edit String Row × ResolvedOperation) : Prop :=
  x.1 = i.edit ∧ x.2.maskedWitnessIds = [i.assertionId] ∧
    ∃ p values, x.2.Notes (i.operation p values)

def EntityIntent.Logged (schema : Schema) (i : EntityIntent)
    (x : EditLog.Edit String Row × ResolvedOperation) : Prop :=
  x.1 = i.edit schema ∧ x.2.Notes i.operation

def RelationIntent.Logged (host : Host) (i : RelationIntent)
    (x : EditLog.Edit String Row × ResolvedOperation) : Prop :=
  (∃ r, x.1 = i.edit host r) ∧ x.2.Notes i.operation

def CreateIntent.Logged (host : Host) (schema : Schema) (i : CreateIntent)
    (x : EditLog.Edit String Row × ResolvedOperation) : Prop :=
  (∃ info, entityInfo schema.index i.entityType = .ok info ∧ x.1 = i.edit host info) ∧
    x.2.Notes i.operation

def FieldIntent.Logged (host : Host) (i : FieldIntent)
    (x : EditLog.Edit String Row × ResolvedOperation) : Prop :=
  (∃ r, x.1 = i.edit host r) ∧ x.2.Notes i.operation

section Passes

variable {host : Host} {schema : Schema} {s s' : Progress}

theorem assertions_pass {is : List AssertionIntent}
    (h : is.foldlM (removeAssertion host schema) s = .ok s') :
    ∃ log, Steps s log s' ∧ List.Forall₂ AssertionIntent.Logged is log := by
  refine Steps.of_foldlM (G := fun _ _ => True) ?_ (fun _ _ _ _ _ _ => trivial)
    (fun _ _ => trivial) h
  intro i _ s s' _ hi
  obtain ⟨o, p, values, hstep, hnotes, hmasked, _⟩ := removeAssertion_step hi
  exact ⟨_, o, hstep, rfl, hmasked, p, values, hnotes⟩

theorem entities_pass {is : List EntityIntent}
    (h : is.foldlM (removeEntity host schema) s = .ok s') :
    ∃ log, Steps s log s' ∧ List.Forall₂ (EntityIntent.Logged schema) is log := by
  refine Steps.of_foldlM (G := fun _ _ => True) ?_ (fun _ _ _ _ _ _ => trivial)
    (fun _ _ => trivial) h
  intro i _ s s' _ hi
  obtain ⟨o, hstep, hnotes⟩ := removeEntity_step hi
  exact ⟨_, o, hstep, rfl, hnotes⟩

theorem relations_pass {is : List RelationIntent}
    (hp : ∀ i ∈ is, i.info.predId ∈ s.relation.predicates) :
    ∃ log, Steps s log (is.foldl (applyRelation host) s) ∧
      List.Forall₂ (RelationIntent.Logged host) is log := by
  refine Steps.of_foldlM (f := fun s i => .ok (applyRelation host s i))
    (G := fun i s => i.info.predId ∈ s.relation.predicates) ?_
    (fun i _ _ _ hsame hi => (hsame i.info.predId).mpr hi) hp ?_
  · intro i _ s s' hi hok
    cases hok
    obtain ⟨o, hstep, hnotes⟩ := applyRelation_step hi
    exact ⟨_, o, hstep, ⟨_, rfl⟩, hnotes⟩
  · clear hp
    induction is generalizing s with
    | nil => rfl
    | cons i is ih => exact ih

theorem creates_pass {is : List CreateIntent}
    (h : is.foldlM (createEntity host schema) s = .ok s') :
    ∃ log, Steps s log s' ∧ List.Forall₂ (CreateIntent.Logged host schema) is log := by
  refine Steps.of_foldlM (G := fun _ _ => True) ?_ (fun _ _ _ _ _ _ => trivial)
    (fun _ _ => trivial) h
  intro i _ s s' _ hi
  obtain ⟨o, info, hinfo, hstep, hnotes⟩ := createEntity_step hi
  exact ⟨_, o, hstep, ⟨info, hinfo, rfl⟩, hnotes⟩

theorem fields_pass {ephemeral : List String} {is : List FieldIntent}
    (hp : ∀ i ∈ is, i.info.predId ∈ s.relation.predicates)
    (h : is.foldlM (applyField host schema ephemeral) s = .ok s') :
    ∃ log, Steps s log s' ∧ List.Forall₂ (FieldIntent.Logged host) is log := by
  refine Steps.of_foldlM (G := fun i s => i.info.predId ∈ s.relation.predicates) ?_
    (fun i _ _ _ hsame hi => (hsame i.info.predId).mpr hi) hp h
  intro i _ s s' hi hok
  obtain ⟨o, hstep, hnotes⟩ := applyField_step hi hok
  exact ⟨_, o, hstep, ⟨_, rfl⟩, hnotes⟩

/-! ## Rows of relations -/

/-- A tuple that is ensured is there after the pass, in the row of the intent or in one equal to it. -/
theorem mem_ensured {is : List RelationIntent}
    (hp : ∀ i ∈ is, i.info.predId ∈ s.relation.predicates)
    (hapart : ∀ i ∈ is, ∀ j ∈ is, i.kind = .ensure → j.kind = .without →
      i.info.predId ≠ j.info.predId)
    {i : RelationIntent} (hi : i ∈ is) (hkind : i.kind = .ensure) :
    ∃ row ∈ (is.foldl (applyRelation host) s).relation.rows i.info.predId,
      row = relationRow host i ∨ eqvTuple row.factTuple (relationRow host i).factTuple = true := by
  induction is generalizing s with
  | nil => cases hi
  | cons j is ih =>
    have hps := (List.forall_mem_cons.mp hp)
    obtain ⟨o, hstep, _⟩ := @applyRelation_step host _ _ hps.1
    have hps' : ∀ i ∈ is, i.info.predId ∈ (applyRelation host s j).relation.predicates :=
      fun i hi => (hstep.predicates _).mpr (hps.2 i hi)
    have hapart' : ∀ i ∈ is, ∀ j ∈ is, i.kind = .ensure → j.kind = .without →
        i.info.predId ≠ j.info.predId :=
      fun i hi j hj => hapart i (List.mem_cons_of_mem _ hi) j (List.mem_cons_of_mem _ hj)
    rcases List.mem_cons.mp hi with rfl | hi'
    · -- the row of the intent, or one equal to it, is there after its turn, and stays
      have hnow : ∃ row ∈ (applyRelation host s i).relation.rows i.info.predId,
          row = relationRow host i ∨
            eqvTuple row.factTuple (relationRow host i).factTuple = true := by
        by_cases hfree : ∀ old ∈ s.relation.rows i.info.predId,
            eqvTuple old.factTuple (relationRow host i).factTuple = false
        · exact ⟨relationRow host i, hstep.mem_rows.mpr (.inr ⟨hkind, rfl, rfl, hfree⟩), .inl rfl⟩
        · simp only [not_forall, Bool.not_eq_false] at hfree
          obtain ⟨old, hold, heqv⟩ := hfree
          have hstay : ¬(i.edit host s.relation).gone i.info.predId old := by
            rintro ⟨hwithout, _⟩
            rw [hkind] at hwithout
            cases hwithout
          exact ⟨old, hstep.mem_rows.mpr (.inl ⟨hold, hstay⟩), .inr heqv⟩
      obtain ⟨row, hrow, hsame⟩ := hnow
      obtain ⟨log, hsteps, hlogged⟩ := @relations_pass host _ _ hps'
      refine ⟨row, hsteps.mem_rows.mpr (.inl ⟨hrow, ?_⟩), hsame⟩
      intro x hx hgone
      obtain ⟨k, hk, ⟨r, hedit⟩, _⟩ := mem_of_forall₂ hlogged hx
      rw [hedit] at hgone
      exact hapart i List.mem_cons_self k (List.mem_cons_of_mem _ hk) hkind hgone.1 hgone.2
    · exact ih hps' hapart' hi'

theorem FieldIntent.targets_fieldRow (i j : FieldIntent) (v : ScenarioValue) :
    i.targets (fieldRow host j v) = true ↔ j.entityRef = i.entityRef := by
  unfold FieldIntent.targets fieldRow
  simp only [List.head?_cons, Option.any_some, eqvDatum_text]
  simp [text]

theorem FieldIntent.targets_of_removes {i : FieldIntent} {row : Row} (h : i.removes row = true) :
    i.targets row = true := by
  unfold FieldIntent.removes at h
  split at h
  · exact h
  · exact h
  · exact h
  · cases h
  · exact (Bool.and_eq_true_iff.mp h).1

/-- A row has one target. -/
theorem FieldIntent.ref_of_targets {i j : FieldIntent} {row : Row} (h : i.targets row = true)
    (h' : j.targets row = true) : i.entityRef = j.entityRef := by
  unfold FieldIntent.targets at h h'
  cases hhead : row.factTuple.head? with
  | none =>
    rw [hhead] at h
    cases h
  | some d =>
    rw [hhead] at h h'
    have hd : d = text i.entityRef := eqvDatum_text.mp h
    have hd' : d = text j.entityRef := eqvDatum_text.mp h'
    rw [hd] at hd'
    simpa [text] using hd'

/-- What is added depends on the rows of the target alone. -/
theorem FieldIntent.adds_congr {i : FieldIntent} {rows rows' : List Row}
    (h : ∀ row, i.targets row = true → (row ∈ rows ↔ row ∈ rows')) : i.adds rows = i.adds rows' := by
  have hany : ∀ v : ScenarioValue,
      ((rows.filter i.targets).any fun row => row.pairValue?.any fun d => eqvDatum v.toRaw d) =
        (rows'.filter i.targets).any fun row => row.pairValue?.any fun d => eqvDatum v.toRaw d := by
    intro v
    rw [Bool.eq_iff_iff, List.any_eq_true, List.any_eq_true]
    apply exists_congr
    intro row
    rw [List.mem_filter, List.mem_filter]
    constructor
    · rintro ⟨⟨hrow, htarget⟩, hvalue⟩
      exact ⟨⟨(h row htarget).mp hrow, htarget⟩, hvalue⟩
    · rintro ⟨⟨hrow, htarget⟩, hvalue⟩
      exact ⟨⟨(h row htarget).mpr hrow, htarget⟩, hvalue⟩
  unfold FieldIntent.adds
  split
  · rfl
  · rfl
  · simp only [hany]
  · rfl
  · rfl

/-- **What the last pass leaves.** Rows no intent is about stay as they are; of the rows an intent is
about, those it takes out are gone and those it adds are there. -/
theorem mem_fields {ephemeral : List String} {is : List FieldIntent}
    (hp : ∀ i ∈ is, i.info.predId ∈ s.relation.predicates)
    (hdistinct : is.Pairwise fun m n =>
      ¬(m.entityRef = n.entityRef ∧ m.info.predId = n.info.predId))
    (h : is.foldlM (applyField host schema ephemeral) s = .ok s') :
    (∀ p row, (∀ i ∈ is, i.info.predId = p → i.targets row = false) →
        (row ∈ s'.relation.rows p ↔ row ∈ s.relation.rows p)) ∧
      ∀ i ∈ is, ∀ row, i.targets row = true → (row ∈ s'.relation.rows i.info.predId ↔
        (row ∈ s.relation.rows i.info.predId ∧ ¬i.removes row = true) ∨
          ∃ v ∈ i.adds (s.relation.rows i.info.predId), row = fieldRow host i v) := by
  induction is generalizing s with
  | nil =>
    cases h
    exact ⟨fun _ _ _ => Iff.rfl, fun i hi => by cases hi⟩
  | cons i is ih =>
    rw [List.foldlM_cons] at h
    obtain ⟨s₁, hi, h⟩ := bind_ok_iff.mp h
    rw [List.forall_mem_cons] at hp
    rw [List.pairwise_cons] at hdistinct
    obtain ⟨o, hstep, _⟩ := applyField_step hp.1 hi
    obtain ⟨hrest, hown⟩ := ih (fun j hj => (hstep.predicates _).mpr (hp.2 j hj)) hdistinct.2 h
    -- the turn of `i` leaves rows it is not about
    have hother : ∀ p row, (i.info.predId = p → i.targets row = false) →
        (row ∈ s₁.relation.rows p ↔ row ∈ s.relation.rows p) := by
      intro p row hnot
      rw [hstep.mem_rows]
      constructor
      · rintro (⟨hrow, _⟩ | ⟨rfl, v, _, rfl⟩)
        · exact hrow
        · have hown : i.targets (fieldRow host i v) = true := (i.targets_fieldRow i v).mpr rfl
          rw [hnot rfl] at hown
          cases hown
      · intro hrow
        refine .inl ⟨hrow, ?_⟩
        rintro ⟨rfl, hremoves⟩
        have hown := FieldIntent.targets_of_removes hremoves
        rw [hnot rfl] at hown
        cases hown
    have htargets : ∀ j ∈ is, ∀ row, j.info.predId = i.info.predId → j.targets row = true →
        i.targets row = false := by
      intro j hj row hpred hrow
      by_contra hrow'
      rw [Bool.not_eq_false] at hrow'
      exact hdistinct.1 j hj ⟨FieldIntent.ref_of_targets hrow' hrow, hpred.symm⟩
    constructor
    · intro p row hnone
      rw [hrest p row fun j hj => hnone j (List.mem_cons_of_mem _ hj)]
      exact hother p row (hnone i List.mem_cons_self)
    · intro j hj row hrow
      rcases List.mem_cons.mp hj with rfl | hj
      · -- the later intents are not about the rows of this one
        rw [hrest j.info.predId row, hstep.mem_rows]
        · simp only [FieldIntent.edit, true_and]
        · intro k hk hpred
          by_contra hk'
          rw [Bool.not_eq_false] at hk'
          rw [htargets k hk row hpred hk'] at hrow
          cases hrow
      · have hsame : ∀ row, j.targets row = true →
            (row ∈ s₁.relation.rows j.info.predId ↔ row ∈ s.relation.rows j.info.predId) :=
          fun row hrow => hother _ row fun hpred => htargets j hj row hpred.symm hrow
        rw [hown j hj row hrow, hsame row hrow, FieldIntent.adds_congr hsame]

end Passes

/-! ## The run of a plan -/

/-- The states between the passes of a plan, and what was logged on the way. -/
structure Trace (host : Host) (schema : Schema) (ephemeral : List String) (r : Relation) (plan : Plan)
    (s' : Progress) where
  (unasserted unlinked related linked last : Progress)
  (assertionLog entityLog relationLog createLog fieldLog :
    List (EditLog.Edit String Row × ResolvedOperation))
  assertions : Steps { relation := r } assertionLog unasserted
  assertionsLogged : List.Forall₂ AssertionIntent.Logged plan.assertions assertionLog
  entities : Steps unasserted entityLog unlinked
  entitiesLogged : List.Forall₂ (EntityIntent.Logged schema) plan.entities entityLog
  relationPredicates : ∀ i ∈ plan.relations, i.info.predId ∈ unlinked.relation.predicates
  related_eq : related = plan.relations.foldl (applyRelation host) unlinked
  relations : Steps unlinked relationLog related
  relationsLogged : List.Forall₂ (RelationIntent.Logged host) plan.relations relationLog
  creates : Steps related createLog linked
  createsLogged : List.Forall₂ (CreateIntent.Logged host schema) plan.creates createLog
  fieldPredicates : ∀ i ∈ plan.fields, i.info.predId ∈ linked.relation.predicates
  last_eq : plan.fields.foldlM (applyField host schema ephemeral) linked = .ok last
  fields : Steps linked fieldLog last
  fieldsLogged : List.Forall₂ (FieldIntent.Logged host) plan.fields fieldLog
  sound : last.relation.Sound
  result : s' = { last with relation := last.relation.sorted }

theorem trace_of_applyPlan {host : Host} {schema : Schema} {r : Relation} {plan : Plan}
    {s' : Progress} (hrelations : ∀ i ∈ plan.relations, i.info.predId ∈ r.predicates)
    (hfields : ∀ i ∈ plan.fields, i.info.predId ∈ r.predicates)
    (h : applyPlan host schema r plan = .ok s') :
    Nonempty (Trace host schema (plan.creates.map (·.entityRef)) r plan s') := by
  unfold applyPlan at h
  obtain ⟨s₁, h₁, h⟩ := bind_ok_iff.mp h
  obtain ⟨s₂, h₂, h⟩ := bind_ok_iff.mp h
  obtain ⟨s₄, h₄, h⟩ := bind_ok_iff.mp h
  obtain ⟨s₅, h₅, h⟩ := bind_ok_iff.mp h
  obtain ⟨frozen, hfrozen, h⟩ := bind_ok_iff.mp h
  obtain ⟨hsound, rfl⟩ := freezeRelation_ok_iff.mp hfrozen
  cases h
  obtain ⟨l₁, steps₁, logged₁⟩ := assertions_pass h₁
  obtain ⟨l₂, steps₂, logged₂⟩ := entities_pass h₂
  have hpred₂ : ∀ p, p ∈ s₂.relation.predicates ↔ p ∈ r.predicates :=
    fun p => (steps₂.predicates p).trans (steps₁.predicates p)
  have hpred₃ : ∀ i ∈ plan.relations, i.info.predId ∈ s₂.relation.predicates :=
    fun i hi => (hpred₂ _).mpr (hrelations i hi)
  obtain ⟨l₃, steps₃, logged₃⟩ := @relations_pass host _ _ hpred₃
  obtain ⟨l₄, steps₄, logged₄⟩ := creates_pass h₄
  have hpred₅ : ∀ i ∈ plan.fields, i.info.predId ∈ s₄.relation.predicates :=
    fun i hi => (steps₄.predicates _).mpr ((steps₃.predicates _).mpr ((hpred₂ _).mpr (hfields i hi)))
  obtain ⟨l₅, steps₅, logged₅⟩ := fields_pass hpred₅ h₅
  exact ⟨⟨s₁, s₂, _, s₄, s₅, l₁, l₂, l₃, l₄, l₅, steps₁, logged₁, steps₂, logged₂, hpred₃, rfl,
    steps₃, logged₃, steps₄, logged₄, hpred₅, h₅, steps₅, logged₅, hsound, rfl⟩⟩

/-- A row of the baseline that none of the first three passes takes out. -/
structure Survives (schema : Schema) (plan : Plan) (p : String) (row : Row) : Prop where
  assertion : ∀ i ∈ plan.assertions, row.asrtId ≠ i.assertionId
  entity : ∀ i ∈ plan.entities, ¬mentions schema i.entityRef p row = true
  relation : ∀ i ∈ plan.relations, i.kind = .without → i.info.predId ≠ p

/-- The rows an entity that is created has. -/
def CreateIntent.rows (host : Host) (info : EntityTypeInfo) (i : CreateIntent) :
    List (String × Row) :=
  (info.existsPredicateId, existsRow host i) :: identityRows host info i

/-- Where a row comes from that was not in the baseline. -/
inductive PutIn (host : Host) (schema : Schema) (plan : Plan) : String → Row → Prop
  | relation (i : RelationIntent) (hi : i ∈ plan.relations) (hkind : i.kind = .ensure) :
      PutIn host schema plan i.info.predId (relationRow host i)
  | create (i : CreateIntent) (hi : i ∈ plan.creates) (info : EntityTypeInfo)
      (hinfo : entityInfo schema.index i.entityType = .ok info) (p : String) (row : Row)
      (hrow : (p, row) ∈ i.rows host info) : PutIn host schema plan p row

namespace Trace

variable {host : Host} {schema : Schema} {ephemeral : List String} {r : Relation} {plan : Plan}
  {s' : Progress} (t : Trace host schema ephemeral r plan s')

theorem mem_unasserted {p : String} {row : Row} : row ∈ t.unasserted.relation.rows p ↔
    row ∈ r.rows p ∧ ∀ i ∈ plan.assertions, row.asrtId ≠ i.assertionId := by
  rw [t.assertions.mem_rows]
  constructor
  · rintro (⟨hrow, hstay⟩ | hadded)
    · refine ⟨hrow, ?_⟩
      intro i hi hid
      obtain ⟨x, hx, hedit, _⟩ := image_of_forall₂ t.assertionsLogged hi
      exact hstay x hx (hedit ▸ hid)
    · obtain ⟨e, he, hadd⟩ := hadded.exists_mem
      obtain ⟨x, hx, rfl⟩ := List.mem_map.mp he
      obtain ⟨i, _, hedit, _⟩ := mem_of_forall₂ t.assertionsLogged hx
      rw [hedit] at hadd
      cases hadd
  · rintro ⟨hrow, hstay⟩
    refine .inl ⟨hrow, ?_⟩
    intro x hx hgone
    obtain ⟨i, hi, hedit, _⟩ := mem_of_forall₂ t.assertionsLogged hx
    rw [hedit] at hgone
    exact hstay i hi hgone

theorem mem_unlinked {p : String} {row : Row} : row ∈ t.unlinked.relation.rows p ↔
    row ∈ t.unasserted.relation.rows p ∧
      ∀ i ∈ plan.entities, ¬mentions schema i.entityRef p row = true := by
  rw [t.entities.mem_rows]
  constructor
  · rintro (⟨hrow, hstay⟩ | hadded)
    · refine ⟨hrow, ?_⟩
      intro i hi hmention
      obtain ⟨x, hx, hedit, _⟩ := image_of_forall₂ t.entitiesLogged hi
      exact hstay x hx (hedit ▸ hmention)
    · obtain ⟨e, he, hadd⟩ := hadded.exists_mem
      obtain ⟨x, hx, rfl⟩ := List.mem_map.mp he
      obtain ⟨i, _, hedit, _⟩ := mem_of_forall₂ t.entitiesLogged hx
      rw [hedit] at hadd
      cases hadd
  · rintro ⟨hrow, hstay⟩
    refine .inl ⟨hrow, ?_⟩
    intro x hx hgone
    obtain ⟨i, hi, hedit, _⟩ := mem_of_forall₂ t.entitiesLogged hx
    rw [hedit] at hgone
    exact hstay i hi hgone

/-- A row that is there after the third pass was left by the second, or is a tuple that is ensured. -/
theorem of_related {p : String} {row : Row} (h : row ∈ t.related.relation.rows p) :
    (row ∈ t.unlinked.relation.rows p ∧
      ∀ i ∈ plan.relations, i.kind = .without → i.info.predId ≠ p) ∨
        ∃ i ∈ plan.relations, i.kind = .ensure ∧ i.info.predId = p ∧ row = relationRow host i := by
  rcases t.relations.mem_rows.mp h with ⟨hrow, hstay⟩ | hadded
  · refine .inl ⟨hrow, ?_⟩
    intro i hi hkind hp
    obtain ⟨x, hx, ⟨r, hedit⟩, _⟩ := image_of_forall₂ t.relationsLogged hi
    exact hstay x hx (hedit ▸ ⟨hkind, hp.symm⟩)
  · obtain ⟨e, he, hadd⟩ := hadded.exists_mem
    obtain ⟨x, hx, rfl⟩ := List.mem_map.mp he
    obtain ⟨i, hi, ⟨r, hedit⟩, _⟩ := mem_of_forall₂ t.relationsLogged hx
    rw [hedit] at hadd
    obtain ⟨hkind, hp, hrow, _⟩ := hadd
    exact .inr ⟨i, hi, hkind, hp.symm, hrow⟩

theorem related_of_unlinked {p : String} {row : Row} (h : row ∈ t.unlinked.relation.rows p)
    (hp : ∀ i ∈ plan.relations, i.kind = .without → i.info.predId ≠ p) :
    row ∈ t.related.relation.rows p := by
  refine t.relations.mem_rows.mpr (.inl ⟨h, ?_⟩)
  intro x hx hgone
  obtain ⟨i, hi, ⟨r, hedit⟩, _⟩ := mem_of_forall₂ t.relationsLogged hx
  rw [hedit] at hgone
  exact hp i hi hgone.1 hgone.2.symm

theorem mem_linked {p : String} {row : Row} : row ∈ t.linked.relation.rows p ↔
    row ∈ t.related.relation.rows p ∨ ∃ i ∈ plan.creates, ∃ info,
      entityInfo schema.index i.entityType = .ok info ∧ (p, row) ∈ i.rows host info := by
  have hstay : ∀ x ∈ t.createLog, ∀ p row, ¬x.1.gone p row := by
    intro x hx p row hgone
    obtain ⟨i, _, ⟨info, _, hedit⟩, _⟩ := mem_of_forall₂ t.createsLogged hx
    rw [hedit] at hgone
    exact hgone
  have hadded : EditLog.Added p row (t.createLog.map Prod.fst) ↔
      ∃ x ∈ t.createLog, x.1.added p row := by
    rw [EditLog.added_iff_of_stay fun e he => by
      obtain ⟨x, hx, rfl⟩ := List.mem_map.mp he
      exact hstay x hx p row]
    simp only [List.mem_map, exists_exists_and_eq_and]
  rw [t.creates.mem_rows, hadded]
  constructor
  · rintro (⟨hrow, _⟩ | ⟨x, hx, hadd⟩)
    · exact .inl hrow
    · obtain ⟨i, hi, ⟨info, hinfo, hedit⟩, _⟩ := mem_of_forall₂ t.createsLogged hx
      rw [hedit] at hadd
      exact .inr ⟨i, hi, info, hinfo, hadd⟩
  · rintro (hrow | ⟨i, hi, info, hinfo, hrow⟩)
    · exact .inl ⟨hrow, fun x hx => hstay x hx p row⟩
    · obtain ⟨x, hx, ⟨info', hinfo', hedit⟩, _⟩ := image_of_forall₂ t.createsLogged hi
      rw [hinfo, Except.ok.injEq] at hinfo'
      subst hinfo'
      exact .inr ⟨x, hx, hedit ▸ hrow⟩

/-- **A row is there before the fields are changed** if it survives. -/
theorem linked_of_survives {p : String} {row : Row} (hrow : row ∈ r.rows p)
    (h : Survives schema plan p row) : row ∈ t.linked.relation.rows p :=
  t.mem_linked.mpr (.inl (t.related_of_unlinked
    (t.mem_unlinked.mpr ⟨t.mem_unasserted.mpr ⟨hrow, h.assertion⟩, h.entity⟩) h.relation))

/-- **A row that is there before the fields are changed** survives, or was put in. -/
theorem of_linked {p : String} {row : Row} (h : row ∈ t.linked.relation.rows p) :
    (row ∈ r.rows p ∧ Survives schema plan p row) ∨ PutIn host schema plan p row := by
  rcases t.mem_linked.mp h with h | ⟨i, hi, info, hinfo, hrow⟩
  · rcases t.of_related h with ⟨h, hrelation⟩ | ⟨i, hi, hkind, rfl, rfl⟩
    · obtain ⟨h, hentity⟩ := t.mem_unlinked.mp h
      obtain ⟨hrow, hassertion⟩ := t.mem_unasserted.mp h
      exact .inl ⟨hrow, hassertion, hentity, hrelation⟩
    · exact .inr (.relation i hi hkind)
  · exact .inr (.create i hi info hinfo p row hrow)

/-- The whole run. -/
theorem steps : Steps { relation := r }
    (t.assertionLog ++ t.entityLog ++ t.relationLog ++ t.createLog ++ t.fieldLog) t.last :=
  (((t.assertions.append t.entities).append t.relations).append t.creates).append t.fields

theorem mem_rows {p : String} {row : Row} :
    row ∈ s'.relation.rows p ↔ row ∈ t.last.relation.rows p := by
  have hsorted : s'.relation.rows p = t.last.relation.rows p :=
    (congrArg (·.relation.rows p) t.result).trans (Relation.rows_sorted _ p)
  rw [hsorted]

/-- A row in the end whose id is not synthetic is one of the baseline that no intent takes out. -/
theorem of_baseline (t : Trace host schema ephemeral r plan s') {p : String} {row : Row}
    (h : row ∈ s'.relation.rows p) (hid : row.asrtId ∉ s'.syntheticIds) : row ∈ r.rows p ∧ Survives schema plan p row ∧
      ∀ i ∈ plan.fields, i.info.predId = p → ¬i.removes row = true := by
  rw [t.mem_rows, t.steps.mem_rows] at h
  rcases h with ⟨hrow, hstay⟩ | hadded
  · simp only [List.forall_mem_append] at hstay
    obtain ⟨⟨⟨⟨h₁, h₂⟩, h₃⟩, _⟩, h₅⟩ := hstay
    refine ⟨hrow, ⟨?_, ?_, ?_⟩, ?_⟩
    · intro i hi hgone
      obtain ⟨x, hx, hedit, _⟩ := image_of_forall₂ t.assertionsLogged hi
      exact h₁ x hx (hedit ▸ hgone)
    · intro i hi hgone
      obtain ⟨x, hx, hedit, _⟩ := image_of_forall₂ t.entitiesLogged hi
      exact h₂ x hx (hedit ▸ hgone)
    · intro i hi hkind hp
      obtain ⟨x, hx, ⟨_, hedit⟩, _⟩ := image_of_forall₂ t.relationsLogged hi
      exact h₃ x hx (hedit ▸ ⟨hkind, hp.symm⟩)
    · intro i hi hp hgone
      obtain ⟨x, hx, ⟨_, hedit⟩, _⟩ := image_of_forall₂ t.fieldsLogged hi
      exact h₅ x hx (hedit ▸ ⟨hp.symm, hgone⟩)
  · have hids : s'.syntheticIds = t.last.syntheticIds := congrArg (·.syntheticIds) t.result
    exact absurd (hids ▸ t.steps.id_of_added hadded) hid

end Trace

end FactGraph.Scenario
