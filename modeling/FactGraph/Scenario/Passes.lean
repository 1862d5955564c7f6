import FactGraph.Lib.EditLog
import FactGraph.Scenario.Typing

/-!
# The passes as logged edits

Each turn of `_apply_intents` is an edit of the relation: it takes out rows and puts in rows, and the
operation it resolves notes the assertion ids of both (`Step`). What a whole pass does to the rows of
a predicate follows from the edits of its intents.
-/

namespace FactGraph.Scenario

open Protocol Store Check Entity

/-- The rows of a relation. -/
def Relation.state (r : Relation) : EditLog.State String Row := fun p => {row | row ∈ r.rows p}

@[simp] theorem Relation.mem_state {r : Relation} {p : String} {row : Row} :
    row ∈ r.state p ↔ row ∈ r.rows p := Iff.rfl

/-- The state `s'` is what an edit makes of `s`, and the operation `o` notes it. -/
structure Step (s s' : Progress) (e : EditLog.Edit String Row) (o : ResolvedOperation) : Prop where
  state : s'.relation.state = e.apply s.relation.state
  predicates : ∀ p, p ∈ s'.relation.predicates ↔ p ∈ s.relation.predicates
  resolved : s'.resolved = s.resolved ++ [o]
  masked : ∀ w, w ∈ o.maskedWitnessIds ↔ w ∈ e.masked (·.asrtId) s.relation.state
  synthetic : ∀ w, w ∈ o.syntheticWitnessIds ↔ w ∈ e.ids (·.asrtId)
  ids : ∀ w, w ∈ s'.syntheticIds ↔ w ∈ s.syntheticIds ∨ w ∈ o.syntheticWitnessIds

theorem Step.mem_rows {s s' : Progress} {e : EditLog.Edit String Row} {o : ResolvedOperation}
    (h : Step s s' e o) {p : String} {row : Row} :
    row ∈ s'.relation.rows p ↔ (row ∈ s.relation.rows p ∧ ¬e.gone p row) ∨ e.added p row := by
  have hp : row ∈ s'.relation.state p ↔ row ∈ e.apply s.relation.state p := by rw [h.state]
  exact hp

/-! ## The edits -/

def AssertionIntent.edit (i : AssertionIntent) : EditLog.Edit String Row where
  gone _ row := row.asrtId = i.assertionId
  added _ _ := False

def EntityIntent.edit (schema : Schema) (i : EntityIntent) : EditLog.Edit String Row where
  gone p row := mentions schema i.entityRef p row = true
  added _ _ := False

def RelationIntent.edit (host : Host) (r : Relation) (i : RelationIntent) :
    EditLog.Edit String Row where
  gone p _ := i.kind = .without ∧ p = i.info.predId
  added p row := i.kind = .ensure ∧ p = i.info.predId ∧ row = relationRow host i ∧
    ∀ old ∈ r.rows p, eqvTuple old.factTuple row.factTuple = false

def CreateIntent.edit (host : Host) (info : EntityTypeInfo) (i : CreateIntent) :
    EditLog.Edit String Row where
  gone _ _ := False
  added p row := (p, row) ∈ (info.existsPredicateId, existsRow host i) :: identityRows host info i

def FieldIntent.edit (host : Host) (r : Relation) (i : FieldIntent) : EditLog.Edit String Row where
  gone p row := p = i.info.predId ∧ i.removes row = true
  added p row := p = i.info.predId ∧ ∃ v ∈ i.adds (r.rows p), row = fieldRow host i v

/-! ## The operations -/

/-- The operation of an intent, before the ids are noted. -/
def FieldIntent.operation (i : FieldIntent) : ResolvedOperation where
  kind := i.kind.kind
  entityRef := some i.entityRef
  entityType := some i.entityType
  predicateId := some i.info.predId
  fieldName := some i.fieldName
  values := i.values
  premiseIds := i.premiseIds
  originRefs := i.originRefs

def RelationIntent.operation (i : RelationIntent) : ResolvedOperation where
  kind := i.kind.kind
  predicateId := some i.info.predId
  values := i.values
  premiseIds := i.premiseIds
  originRefs := i.originRefs

def CreateIntent.operation (i : CreateIntent) : ResolvedOperation where
  kind := .createEphemeralEntity
  entityRef := some i.entityRef
  entityType := some i.entityType
  premiseIds := i.premiseIds
  originRefs := i.originRefs

def EntityIntent.operation (i : EntityIntent) : ResolvedOperation where
  kind := .withoutEntity
  entityRef := some i.entityRef
  entityType := some i.entityType
  premiseIds := i.premiseIds
  originRefs := i.originRefs

def AssertionIntent.operation (i : AssertionIntent) (predicateId : String)
    (values : List ScenarioValue) : ResolvedOperation where
  kind := .withoutAssertion
  predicateId := some predicateId
  assertionId := some i.assertionId
  values := values
  premiseIds := i.premiseIds
  originRefs := i.originRefs

/-- The operation, up to the ids it notes. -/
abbrev ResolvedOperation.Notes (o base : ResolvedOperation) : Prop :=
  o = { base with
    maskedWitnessIds := o.maskedWitnessIds, syntheticWitnessIds := o.syntheticWitnessIds }

/-! ## The turns -/

theorem mem_matching {r : Relation} {w p : String} {row : Row} :
    (p, row) ∈ r.matching w ↔ row ∈ r.rows p ∧ row.asrtId = w := by
  unfold Relation.matching
  rw [List.mem_flatMap]
  constructor
  · rintro ⟨⟨q, rows⟩, hq, hmem⟩
    obtain ⟨row', hrow', hpair⟩ := List.mem_map.mp hmem
    cases hpair
    obtain ⟨hrow, hid⟩ := List.mem_filter.mp hrow'
    rw [Relation.mem_entries] at hq
    rw [Relation.rows_of_rows? hq]
    exact ⟨hrow, of_decide_eq_true hid⟩
  · rintro ⟨hrow, hid⟩
    have hp := Relation.mem_entries.mpr
      (Relation.rows?_of_mem (Relation.mem_predicates_of_row hrow))
    refine ⟨_, hp, List.mem_map.mpr ⟨row, List.mem_filter.mpr ⟨hrow, decide_eq_true hid⟩, rfl⟩⟩

theorem mem_predicates_set {r : Relation} {p q : String} {rows : List Row} (hp : p ∈ r.predicates) :
    q ∈ (r.set p rows).predicates ↔ q ∈ r.predicates := by
  rw [Relation.predicates, Relation.set, Dict.mem_keys_set, ← Relation.predicates]
  constructor
  · rintro (rfl | hq)
    · exact hp
    · exact hq
  · exact Or.inr

theorem removeAssertion_step {host : Host} {schema : Schema} {s s' : Progress} {i : AssertionIntent}
    (h : removeAssertion host schema s i = .ok s') :
    ∃ o p values, Step s s' i.edit o ∧ o.Notes (i.operation p values) ∧
      o.maskedWitnessIds = [i.assertionId] ∧
      ∃ row ∈ s.relation.rows p, row.asrtId = i.assertionId := by
  unfold removeAssertion at h
  split at h
  next p row hmatching =>
    obtain ⟨domains, _, h⟩ := bind_ok_iff.mp h
    obtain ⟨values, _, h⟩ := bind_ok_iff.mp h
    have honly : ∀ q row', row' ∈ s.relation.rows q → row'.asrtId = i.assertionId →
        q = p ∧ row' = row := by
      intro q row' hrow hid
      have hmem := mem_matching.mpr ⟨hrow, hid⟩
      rw [hmatching, List.mem_singleton, Prod.mk.injEq] at hmem
      exact hmem
    obtain ⟨hrow, hid⟩ := mem_matching.mp (hmatching ▸ List.mem_singleton_self (p, row))
    cases h
    refine ⟨{ i.operation p values with maskedWitnessIds := [i.assertionId] }, p, values, ?_, rfl,
      rfl, row, hrow, hid⟩
    constructor
    · funext q
      ext row'
      show row' ∈ (s.relation.set p _).rows q ↔ _
      rw [EditLog.Edit.mem_apply, Relation.rows_set]
      split
      next hq =>
        subst hq
        simp [AssertionIntent.edit]
      next hq =>
        -- the other predicates have no row of this id
        simp only [AssertionIntent.edit, Relation.mem_state, or_false]
        exact ⟨fun hrow' => ⟨hrow', fun hid' => hq (honly q row' hrow' hid').1⟩, And.left⟩
    · intro q
      exact mem_predicates_set (Relation.mem_predicates_of_row hrow)
    · rfl
    · intro w
      rw [List.mem_singleton]
      constructor
      · rintro rfl
        exact ⟨p, row, hrow, hid, hid⟩
      · rintro ⟨q, row', _, hgone, rfl⟩
        exact hgone
    · intro w
      simp [EditLog.Edit.ids, AssertionIntent.edit, AssertionIntent.operation]
    · simp [AssertionIntent.operation]
  next => cases h

theorem removeEntity_step {host : Host} {schema : Schema} {s s' : Progress} {i : EntityIntent}
    (h : removeEntity host schema s i = .ok s') :
    ∃ o, Step s s' (i.edit schema) o ∧ o.Notes i.operation := by
  unfold removeEntity at h
  obtain ⟨info, _, h⟩ := bind_ok_iff.mp h
  obtain ⟨visible, _, h⟩ := bind_ok_iff.mp h
  obtain ⟨_, h⟩ := bind_unit_ok_iff.mp h
  obtain ⟨_, h⟩ := bind_unit_ok_iff.mp h
  cases h
  refine ⟨{ i.operation with maskedWitnessIds := canonicalStrings (s.relation.entries.flatMap fun p =>
    (p.2.filter (mentions schema i.entityRef p.1)).map (·.asrtId)) }, ?_, rfl⟩
  have hrows : ∀ q row, row ∈ (s.relation.mapRows fun p rows => rows.filter fun row =>
      !mentions schema i.entityRef p row).rows q ↔
        row ∈ s.relation.rows q ∧ ¬mentions schema i.entityRef q row = true := by
    intro q row
    unfold Relation.rows
    rw [Relation.rows?_mapRows]
    cases s.relation.rows? q with
    | none => simp
    | some rows => simp
  constructor
  · funext q
    ext row
    show row ∈ Relation.rows _ q ↔ _
    rw [hrows, EditLog.Edit.mem_apply]
    simp [EntityIntent.edit]
  · intro q
    rw [Relation.mem_predicates, Relation.mem_predicates, Relation.rows?_mapRows]
    cases s.relation.rows? q <;> simp
  · rfl
  · intro w
    show w ∈ canonicalStrings _ ↔ _
    rw [mem_canonicalStrings, List.mem_flatMap]
    constructor
    · rintro ⟨⟨q, rows⟩, hq, hmem⟩
      obtain ⟨row, hrow, rfl⟩ := List.mem_map.mp hmem
      obtain ⟨hrow, hmention⟩ := List.mem_filter.mp hrow
      rw [Relation.mem_entries] at hq
      exact ⟨q, row, by rwa [Relation.mem_state, Relation.rows_of_rows? hq], hmention, rfl⟩
    · rintro ⟨q, row, hrow, hmention, rfl⟩
      have hq := Relation.mem_entries.mpr
        (Relation.rows?_of_mem (Relation.mem_predicates_of_row hrow))
      exact ⟨_, hq, List.mem_map.mpr ⟨row, List.mem_filter.mpr ⟨hrow, hmention⟩, rfl⟩⟩
  · intro w
    simp [EditLog.Edit.ids, EntityIntent.edit, EntityIntent.operation]
  · simp [EntityIntent.operation]

theorem applyRelation_step {host : Host} {s : Progress} {i : RelationIntent}
    (hp : i.info.predId ∈ s.relation.predicates) :
    ∃ o, Step s (applyRelation host s i) (i.edit host s.relation) o ∧ o.Notes i.operation := by
  unfold applyRelation
  cases hkind : i.kind with
  | without =>
    refine ⟨{ i.operation with
      kind := .withoutRelation
      maskedWitnessIds := canonicalStrings ((s.relation.rows i.info.predId).map (·.asrtId)) }, ?_, by
        rw [RelationIntent.operation, hkind]; rfl⟩
    constructor
    · funext q
      ext row
      show row ∈ (s.relation.set _ []).rows q ↔ _
      rw [EditLog.Edit.mem_apply, Relation.rows_set]
      simp only [RelationIntent.edit, hkind, true_and, reduceCtorEq, false_and, or_false,
        Relation.mem_state]
      split <;> simp_all
    · intro q
      exact mem_predicates_set hp
    · rfl
    · intro w
      show w ∈ canonicalStrings _ ↔ _
      rw [mem_canonicalStrings, List.mem_map]
      constructor
      · rintro ⟨row, hrow, rfl⟩
        exact ⟨_, row, hrow, ⟨hkind, rfl⟩, rfl⟩
      · rintro ⟨q, row, hrow, ⟨_, rfl⟩, rfl⟩
        exact ⟨row, hrow, rfl⟩
    · intro w
      simp [EditLog.Edit.ids, RelationIntent.edit, hkind, RelationIntent.operation]
    · simp [RelationIntent.operation]
  | ensure =>
    dsimp only
    split
    next hany =>
      -- a tuple that is there already is not added
      have hnone : ∀ q row, ¬(i.edit host s.relation).added q row := by
        rintro q row ⟨_, rfl, rfl, hfree⟩
        obtain ⟨old, hold, heqv⟩ := List.any_eq_true.mp hany
        rw [hfree old hold] at heqv
        cases heqv
      have hstay : ∀ q row, ¬(i.edit host s.relation).gone q row := by
        rintro q row ⟨hwithout, _⟩
        rw [hkind] at hwithout
        cases hwithout
      refine ⟨{ i.operation with kind := .ensureRelation }, ?_, by
        rw [RelationIntent.operation, hkind]; rfl⟩
      constructor
      · funext q
        ext row
        rw [EditLog.Edit.mem_apply]
        simp [hnone, hstay]
      · intro q
        rfl
      · rfl
      · intro w
        simp [EditLog.Edit.masked, hstay, RelationIntent.operation]
      · intro w
        simp [EditLog.Edit.ids, hnone, RelationIntent.operation]
      · simp [RelationIntent.operation]
    next hany =>
      have hadded : ∀ q row, (i.edit host s.relation).added q row ↔
          q = i.info.predId ∧ row = relationRow host i := by
        intro q row
        simp only [RelationIntent.edit, hkind, true_and]
        constructor
        · rintro ⟨rfl, rfl, _⟩
          exact ⟨rfl, rfl⟩
        · rintro ⟨rfl, rfl⟩
          refine ⟨rfl, rfl, ?_⟩
          intro old hold
          by_contra hne
          exact hany (List.any_eq_true.mpr ⟨old, hold, by simpa using hne⟩)
      have hstay : ∀ q row, ¬(i.edit host s.relation).gone q row := by
        rintro q row ⟨hwithout, _⟩
        rw [hkind] at hwithout
        cases hwithout
      refine ⟨{ i.operation with
        kind := .ensureRelation
        syntheticWitnessIds := [(relationRow host i).asrtId] }, ?_, by
          rw [RelationIntent.operation, hkind]; rfl⟩
      constructor
      · funext q
        ext row
        show row ∈ (s.relation.set _ _).rows q ↔ _
        rw [EditLog.Edit.mem_apply, hadded, Relation.rows_set]
        split
        next hq =>
          subst hq
          simp [hstay]
        next hq => simp [hstay, hq]
      · intro q
        exact mem_predicates_set hp
      · rfl
      · intro w
        simp [EditLog.Edit.masked, hstay, RelationIntent.operation]
      · intro w
        rw [List.mem_singleton]
        constructor
        · rintro rfl
          exact ⟨_, _, (hadded _ _).mpr ⟨rfl, rfl⟩, rfl⟩
        · rintro ⟨q, row, hadd, rfl⟩
          rw [((hadded q row).mp hadd).2]
      · intro w
        show w ∈ s.syntheticIds ++ _ ↔ _
        rw [List.mem_append]

theorem mem_rows_appendRows {created : List (String × Row)} {r : Relation}
    {q : String} {row : Row} :
    row ∈ (created.foldl Relation.appendRow r).rows q ↔ row ∈ r.rows q ∨ (q, row) ∈ created := by
  induction created generalizing r with
  | nil => simp
  | cons p created ih =>
    obtain ⟨p, new⟩ := p
    rw [List.foldl_cons, ih, Relation.appendRow, Relation.rows_set, List.mem_cons, Prod.mk.injEq]
    split
    next hq =>
      subst hq
      simp only [List.mem_append, List.mem_singleton, true_and]
      tauto
    next hq => simp [hq]

theorem mem_predicates_appendRows {created : List (String × Row)} {r : Relation} {q : String}
    (h : ∀ p ∈ created, p.1 ∈ r.predicates) :
    q ∈ (created.foldl Relation.appendRow r).predicates ↔ q ∈ r.predicates := by
  induction created generalizing r with
  | nil => rfl
  | cons p created ih =>
    rw [List.forall_mem_cons] at h
    have hset : ∀ q, q ∈ (r.appendRow p).predicates ↔ q ∈ r.predicates :=
      fun q => mem_predicates_set h.1
    rw [List.foldl_cons, ih fun p hp => (hset p.1).mpr (h.2 p hp), hset]

theorem createEntity_step {host : Host} {schema : Schema} {s s' : Progress} {i : CreateIntent}
    (h : createEntity host schema s i = .ok s') :
    ∃ o info, entityInfo schema.index i.entityType = .ok info ∧
      Step s s' (i.edit host info) o ∧ o.Notes i.operation := by
  unfold createEntity at h
  obtain ⟨info, hinfo, h⟩ := bind_ok_iff.mp h
  obtain ⟨hanchors, h⟩ := bind_unit_ok_iff.mp h
  obtain ⟨visible, _, h⟩ := bind_ok_iff.mp h
  obtain ⟨_, h⟩ := bind_unit_ok_iff.mp h
  have hinfo' : entityInfo schema.index i.entityType = .ok info := by
    unfold liftSchema at hinfo
    split at hinfo
    next a ha =>
      cases hinfo
      exact ha
    next => cases hinfo
  -- the source looks for missing relations among these and finds none
  have hpresent : ∀ p ∈ info.existsPredicateId :: info.identityPredicates.map (·.2.predId),
      p ∈ s.relation.predicates := by
    intro p hp
    unfold assertEphemeralAnchorsPresent at hanchors
    have hnone := demand_ok_iff.mp hanchors
    by_contra hmissing
    have hrows : (s.relation.rows? p).isNone = true := by
      rw [Option.isNone_iff_eq_none]
      exact Dict.get?_eq_none_iff.mpr hmissing
    have hmem : p ∈ ((info.existsPredicateId :: info.identityPredicates.map (·.2.predId)).filter
        fun p => (s.relation.rows? p).isNone).insertionSort (· ≤ ·) :=
      (List.mem_insertionSort _).mpr (List.mem_filter.mpr ⟨hp, hrows⟩)
    rw [List.isEmpty_iff.mp hnone] at hmem
    cases hmem
  have hcreated : ∀ p ∈ (info.existsPredicateId, existsRow host i) :: identityRows host info i,
      p.1 ∈ s.relation.predicates := by
    intro p hp
    apply hpresent
    rcases List.mem_cons.mp hp with rfl | hp
    · exact List.mem_cons_self
    · obtain ⟨f, _, hf⟩ := List.mem_filterMap.mp hp
      split at hf
      next pred value hpred _ =>
        cases hf
        exact List.mem_cons_of_mem _
          (List.mem_map.mpr ⟨_, Dict.mem_of_get? hpred, rfl⟩)
      next => cases hf
  cases h
  refine ⟨{ i.operation with
    syntheticWitnessIds := canonicalStrings
      (((info.existsPredicateId, existsRow host i) :: identityRows host info i).map (·.2.asrtId)) },
    info, hinfo', ?_, rfl⟩
  constructor
  · funext q
    ext row
    show row ∈ Relation.rows _ q ↔ _
    rw [mem_rows_appendRows, EditLog.Edit.mem_apply]
    simp [CreateIntent.edit]
  · intro q
    exact mem_predicates_appendRows hcreated
  · rfl
  · intro w
    simp [EditLog.Edit.masked, CreateIntent.edit, CreateIntent.operation]
  · intro w
    show w ∈ canonicalStrings _ ↔ _
    rw [mem_canonicalStrings, List.mem_map]
    constructor
    · rintro ⟨⟨q, row⟩, hrow, rfl⟩
      exact ⟨q, row, hrow, rfl⟩
    · rintro ⟨q, row, hrow, rfl⟩
      exact ⟨(q, row), hrow, rfl⟩
  · intro w
    show w ∈ s.syntheticIds ++ _ ↔ _ ∨ w ∈ canonicalStrings _
    rw [List.mem_append, mem_canonicalStrings]

theorem applyField_step {host : Host} {schema : Schema} {ephemeral : List String} {s s' : Progress}
    {i : FieldIntent} (hp : i.info.predId ∈ s.relation.predicates)
    (h : applyField host schema ephemeral s i = .ok s') :
    ∃ o, Step s s' (i.edit host s.relation) o ∧ o.Notes i.operation := by
  unfold applyField at h
  obtain ⟨info, _, h⟩ := bind_ok_iff.mp h
  obtain ⟨visible, _, h⟩ := bind_ok_iff.mp h
  obtain ⟨_, h⟩ := bind_unit_ok_iff.mp h
  obtain ⟨_, h⟩ := bind_unit_ok_iff.mp h
  cases h
  refine ⟨{ i.operation with
    maskedWitnessIds :=
      canonicalStrings (((s.relation.rows i.info.predId).filter i.removes).map (·.asrtId))
    syntheticWitnessIds := canonicalStrings
        (((i.adds (s.relation.rows i.info.predId)).map (fieldRow host i)).map (·.asrtId)) }, ?_, rfl⟩
  -- the rows, the relations, and the ids that are masked and added
  constructor
  · funext q
    ext row
    show row ∈ (s.relation.set _ _).rows q ↔ _
    rw [EditLog.Edit.mem_apply, Relation.rows_set]
    split
    next hq =>
      subst hq
      simp only [List.mem_append, List.mem_filter, List.mem_map, FieldIntent.edit, true_and,
        Relation.mem_state, Bool.not_eq_true', Bool.not_eq_true]
      constructor
      · rintro (hrow | ⟨v, hv, rfl⟩)
        · exact .inl hrow
        · exact .inr ⟨v, hv, rfl⟩
      · rintro (hrow | ⟨v, hv, rfl⟩)
        · exact .inl hrow
        · exact .inr ⟨v, hv, rfl⟩
    next hq => simp [FieldIntent.edit, hq]
  · intro q
    exact mem_predicates_set hp
  · rfl
  · intro w
    show w ∈ canonicalStrings _ ↔ _
    rw [mem_canonicalStrings, List.mem_map]
    constructor
    · rintro ⟨row, hrow, rfl⟩
      obtain ⟨hrow, hgone⟩ := List.mem_filter.mp hrow
      exact ⟨_, row, hrow, ⟨rfl, hgone⟩, rfl⟩
    · rintro ⟨q, row, hrow, ⟨rfl, hgone⟩, rfl⟩
      exact ⟨row, List.mem_filter.mpr ⟨hrow, hgone⟩, rfl⟩
  · intro w
    show w ∈ canonicalStrings _ ↔ _
    rw [mem_canonicalStrings, List.map_map, List.mem_map]
    constructor
    · rintro ⟨v, hv, rfl⟩
      exact ⟨_, _, ⟨rfl, v, hv, rfl⟩, rfl⟩
    · rintro ⟨q, row, ⟨rfl, v, hv, rfl⟩, rfl⟩
      exact ⟨v, hv, rfl⟩
  · intro w
    show w ∈ s.syntheticIds ++ _ ↔ _ ∨ w ∈ canonicalStrings _
    rw [List.mem_append, mem_canonicalStrings]

end FactGraph.Scenario
