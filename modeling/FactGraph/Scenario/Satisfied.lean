import FactGraph.Scenario.Resolution

/-!
# Which operations hold in the effective world

What each operation asks of the facts of the effective world (`Operation.Holds`), and when all the
operations of a resolved specification hold together (`Compatible`). Within one pass the normalizer
reports what does not go together; between passes nothing does, and a later pass undoes what an earlier
one did.

`Holds` looks at the facts of the world and not at the rows the resolver edits, so that it says what a
reader of the world sees. A fact has a typed value, a row the object it was given as; two objects may
stand for one value, and the resolver compares objects. So `Compatible` has a part about the baseline
(`removed`): a refused value is left in the world by a row that spells it differently.

The other parts are about the operations alone. `KeptOut` is what an early pass takes out and a later
one must not bring back; `replaced`, `cleared` and `refused` are about the tuples that the pass over
relations puts in and the last pass, over fields, must not take out again. The passes are in the order
of the source; with another order other pairs of operations would go together.
-/

namespace FactGraph.Scenario

open Protocol Store Check Entity

/-! ## What operations ask for -/

/-- A field operation says what the values of the field are. -/
def FieldKind.Declares (kind : FieldKind) : Prop :=
  kind = .setEffectiveValue ∨ kind = .setExactMembers ∨ kind = .ensureMember

/-- The facts of the target of a field operation that have a given value. -/
def FieldIntent.Has (i : FieldIntent) (facts : List WorldFact) (v : ScenarioValue) : Prop :=
  ∃ f ∈ facts, f.About i.entityRef i.info.predId ∧ f.values.tail = [v]

def FieldIntent.Holds (i : FieldIntent) (facts : List WorldFact) : Prop :=
  match i.kind with
  | .setEffectiveValue | .setExactMembers =>
      (∀ f ∈ facts, f.About i.entityRef i.info.predId → ∃ v ∈ i.values, f.values.tail = [v]) ∧
        ∀ v ∈ i.values, i.Has facts v
  | .ensureMember => ∀ v ∈ i.values, i.Has facts v
  | .withoutField => ∀ f ∈ facts, f.About i.entityRef i.info.predId → f.source ≠ .baseline
  | .withoutValue => ∀ v ∈ i.values, ∀ f ∈ facts, f.About i.entityRef i.info.predId →
      f.values[1]? ≠ some v

def RelationIntent.Holds (i : RelationIntent) (facts : List WorldFact) : Prop :=
  match i.kind with
  | .ensure => ∃ f ∈ facts, f.predicateId = i.info.predId ∧ f.values = i.values
  | .without => ∀ f ∈ facts, f.predicateId ≠ i.info.predId

def CreateIntent.Holds (schema : Schema) (i : CreateIntent) (facts : List WorldFact) : Prop :=
  ∃ info, entityInfo schema.index i.entityType = .ok info ∧ ∃ f ∈ facts,
    f.predicateId = info.existsPredicateId ∧ f.values.map (·.toRaw) = [text i.entityRef]

def EntityIntent.Holds (i : EntityIntent) (facts : List WorldFact) : Prop :=
  ∀ f ∈ facts, ¬f.Mentions i.entityRef

def AssertionIntent.Holds (i : AssertionIntent) (facts : List WorldFact) : Prop :=
  ∀ f ∈ facts, f.source = .baseline → f.witnessId ≠ i.assertionId

def Intent.Holds (schema : Schema) (facts : List WorldFact) : Intent → Prop
  | .field i => i.Holds facts
  | .relation i => i.Holds facts
  | .create i => i.Holds schema facts
  | .entity i => i.Holds facts
  | .assertion i => i.Holds facts

/-- An operation holds among some facts. -/
def Operation.Holds (host : Host) (schema : Schema) (facts : List WorldFact) (op : Operation) : Prop :=
  ∃ i, intentOf host schema op = .ok i ∧ i.Holds schema facts

/-! ## Operations that go together -/

def FieldIntent.SameTarget (i j : FieldIntent) : Prop :=
  i.entityRef = j.entityRef ∧ i.info.predId = j.info.predId

/-- A tuple that is ensured is about the target of a field operation. -/
def RelationIntent.Names (i : RelationIntent) (j : FieldIntent) : Prop :=
  i.kind = .ensure ∧ i.info.predId = j.info.predId ∧
    i.values.head?.map (·.toRaw) = some (text j.entityRef)

/-- A row of the baseline that the first three passes leave. -/
structure Left (schema : Schema) (intents : List Intent) (p : String) (row : Row) : Prop where
  assertion : ∀ i, .assertion i ∈ intents → row.asrtId ≠ i.assertionId
  entity : ∀ i, .entity i ∈ intents → ¬mentions schema i.entityRef p row = true
  relation : ∀ i, .relation i ∈ intents → i.kind = .without → i.info.predId ≠ p

/-- No operation brings back what another one takes out. -/
structure KeptOut (host : Host) (schema : Schema) (intents : List Intent) : Prop where
  /-- No field of a relation that is emptied is given values. -/
  emptied : ∀ i j, .relation i ∈ intents → .field j ∈ intents → i.kind = .without →
    i.info.predId = j.info.predId → j.kind.Declares → j.values = []
  /-- No field is given a value that is an entity that is removed. -/
  referred : ∀ i j, .entity i ∈ intents → .field j ∈ intents → j.kind.Declares →
    ∀ v ∈ j.values, ¬(v.tag = "entity_ref" ∧ v.toRaw = text i.entityRef)
  /-- No entity is created with an identity that mentions an entity that is removed. -/
  identified : ∀ i j, .entity i ∈ intents → Leads intents j → ∀ info,
    entityInfo schema.index j.entityType = .ok info →
      ∀ q ∈ identityRows host info j, ¬mentions schema i.entityRef q.1 q.2 = true

/-- The object in the second column of a row is one of a value. -/
def Row.HasSecond (row : Row) (v : ScenarioValue) : Prop :=
  (row.factTuple[1]?.any fun d => (ScenarioValue.fromRaw v.tag d).toOption = some v) = true

/-- A row is a pair, and its second object equals that of a value. -/
def Row.IsPairWith (row : Row) (v : ScenarioValue) : Prop :=
  (row.pairValue?.any fun d => eqvDatum d v.toRaw) = true

/-- Operations on different targets, or of different kinds, that go together. -/
structure Compatible (host : Host) (schema : Schema) (baseline : Relation) (intents : List Intent) :
    Prop extends KeptOut host schema intents where
  /-- A tuple that is ensured is one of the values its field is set to. -/
  replaced : ∀ i j, .relation i ∈ intents → .field j ∈ intents → i.Names j →
    j.kind = .setEffectiveValue ∨ j.kind = .setExactMembers → ∃ v ∈ j.values, i.values.tail = [v]
  /-- A tuple that is ensured is declared again where its field is cleared. -/
  cleared : ∀ i j, .relation i ∈ intents → .field j ∈ intents → i.Names j →
    j.kind = .withoutField → ∃ k, .field k ∈ intents ∧ k.SameTarget j ∧ k.kind.Declares ∧
      ∃ v ∈ k.values, i.values.tail = [v]
  /-- A tuple that is ensured does not have a value that is refused. -/
  refused : ∀ i j, .relation i ∈ intents → .field j ∈ intents → i.Names j →
    j.kind = .withoutValue → ∀ v ∈ j.values, i.values[1]? ≠ some v
  /-- Where a value is refused and the field is neither replaced nor cleared, no member is ensured
  and every row with that value is a pair whose object equals that of the value. -/
  removed : ∀ j, .field j ∈ intents → j.kind = .withoutValue →
    (∀ k, .field k ∈ intents → k.SameTarget j →
      k.kind = .ensureMember ∨ k.kind = .withoutValue) →
    ∀ row ∈ baseline.rows j.info.predId, Left schema intents j.info.predId row →
      j.targets row = true → ∀ v ∈ j.values, row.HasSecond v →
        (∀ k, .field k ∈ intents → k.SameTarget j → k.kind ≠ .ensureMember) ∧ row.IsPairWith v

/-! ## The facts of fields -/

theorem FieldIntent.of_adds {i : FieldIntent} {rows : List Row} {v : ScenarioValue}
    (h : v ∈ i.adds rows) : i.kind.Declares ∧ v ∈ i.values := by
  unfold FieldIntent.adds at h
  split at h
  next hkind => exact ⟨.inl hkind, h⟩
  next hkind => exact ⟨.inr (.inl hkind), h⟩
  next hkind => exact ⟨.inr (.inr hkind), (List.mem_filter.mp h).1⟩
  next => cases h
  next => cases h

/-- A row with the value of a column. -/
theorem TypedAs.second {tags : List String} {ds : List Datum} {vs : List ScenarioValue}
    (h : TypedAs tags ds vs) {tag : String} (htag : tags[1]? = some tag) {v : ScenarioValue}
    (hv : v.tag = tag) :
    vs[1]? = some v ↔
      (ds[1]?.any fun d => (ScenarioValue.fromRaw v.tag d).toOption = some v) = true := by
  cases h with
  | nil => cases htag
  | cons _ tail =>
    cases tail with
    | nil => cases htag
    | @cons tag' d w tags ds vs head tail =>
      simp only [List.getElem?_cons_succ, List.getElem?_cons_zero, Option.some.injEq] at htag
      subst htag
      simp [hv, head, Except.toOption]

theorem eqvTuple_toRaw (vs : List ScenarioValue) :
    eqvTuple (vs.map (·.toRaw)) (vs.map (·.toRaw)) = true := by
  unfold eqvTuple
  induction vs with
  | nil => rfl
  | cons v vs ih =>
    rw [List.map_cons, eqvData, Bool.and_eq_true]
    exact ⟨v.eqv_toRaw_self, ih⟩

/-- A row equal to a tuple is about the entity the tuple is about. -/
theorem head_of_eqv {row : Row} {vs : List ScenarioValue} {n : FieldIntent}
    (heqv : eqvTuple row.factTuple (vs.map (·.toRaw)) = true) (htargets : n.targets row = true) :
    vs.head?.map (·.toRaw) = some (text n.entityRef) := by
  unfold FieldIntent.targets at htargets
  unfold eqvTuple at heqv
  cases hrow : row.factTuple with
  | nil =>
    rw [hrow] at htargets
    cases htargets
  | cons d ds =>
    rw [hrow] at htargets heqv
    cases vs with
    | nil => simp [eqvData] at heqv
    | cons v vs =>
      have hd : d = text n.entityRef := eqvDatum_text.mp htargets
      rw [List.map_cons, eqvData, Bool.and_eq_true, hd, ← ScenarioValue.eqv_comm,
        eqvDatum_text] at heqv
      simp [heqv.1]

/-- A pair whose second object is a value, equal to a tuple. -/
theorem second_of_eqv {row : Row} {vs : List ScenarioValue} {d : Datum} {w : ScenarioValue}
    (heqv : eqvTuple row.factTuple (vs.map (·.toRaw)) = true) (hd : row.pairValue? = some d)
    (hdw : eqvDatum d w.toRaw = true) (htag : (vs.map (·.tag))[1]? = some w.tag) :
    vs[1]? = some w := by
  unfold Row.pairValue? at hd
  unfold eqvTuple at heqv
  split at hd
  next first value hrow =>
    cases hd
    rw [hrow] at heqv
    cases vs with
    | nil => simp [eqvData] at heqv
    | cons x vs =>
      cases vs with
      | nil => simp [eqvData] at heqv
      | cons y vs =>
        simp only [List.map_cons, eqvData, Bool.and_eq_true] at heqv
        simp only [List.map_cons, List.getElem?_cons_succ, List.getElem?_cons_zero,
          Option.some.injEq] at htag ⊢
        exact ScenarioValue.eq_of_eqv_both htag heqv.2.1 hdw
  next => cases hd

/-- Tuples under the same domains, about one entity, with the same other values. -/
theorem eq_of_head_tail {vs ws : List ScenarioValue} (htags : vs.map (·.tag) = ws.map (·.tag))
    (hhead : vs.head?.map (·.toRaw) = ws.head?.map (·.toRaw)) (htail : vs.tail = ws.tail) :
    vs = ws := by
  cases vs with
  | nil =>
    cases ws with
    | nil => rfl
    | cons w ws => simp at htags
  | cons v vs =>
    cases ws with
    | nil => simp at htags
    | cons w ws =>
      simp only [List.map_cons, List.cons.injEq, List.head?_cons, Option.map_some,
        Option.some.injEq, List.tail_cons] at htags hhead htail
      rw [htail, ScenarioValue.toRaw_inj htags.1 hhead]

theorem FieldIntent.removes_of_replaces {n : FieldIntent}
    (h : n.kind = .setEffectiveValue ∨ n.kind = .setExactMembers ∨ n.kind = .withoutField) (row : Row) :
    n.removes row = n.targets row := by
  unfold FieldIntent.removes
  rcases h with h | h | h <;> rw [h]

theorem FieldIntent.adds_of_replaces {n : FieldIntent}
    (h : n.kind = .setEffectiveValue ∨ n.kind = .setExactMembers) (rows : List Row) :
    n.adds rows = n.values := by
  unfold FieldIntent.adds
  rcases h with h | h <;> rw [h]

theorem FieldIntent.About_congr {i n : FieldIntent} (h : i.SameTarget n) {f : WorldFact} :
    f.About i.entityRef i.info.predId ↔ f.About n.entityRef n.info.predId := by
  rw [h.1, h.2]

theorem FieldIntent.Has_congr {i n : FieldIntent} (h : i.SameTarget n) {facts : List WorldFact}
    {v : ScenarioValue} : i.Has facts v ↔ n.Has facts v := by
  unfold FieldIntent.Has
  rw [h.1, h.2]

/-- The identity of an entity that is created is that of the first operation that creates it. -/
theorem identity_of_leads {host : Host} {n j : CreateIntent} {info : EntityTypeInfo}
    (href : n.entityRef = j.entityRef) (hvalues : n.identityValues = j.identityValues) {p : String}
    {row : Row} (h : (p, row) ∈ identityRows host info n) :
    ∃ row', (p, row') ∈ identityRows host info j ∧ row'.factTuple = row.factTuple := by
  unfold identityRows at h ⊢
  obtain ⟨field, hfield, hrow⟩ := List.mem_filterMap.mp h
  rw [hvalues] at hrow
  split at hrow
  next pred value hpred hvalue =>
    cases hrow
    refine ⟨identityRow host j pred.predId value, List.mem_filterMap.mpr ⟨field, hfield, ?_⟩, ?_⟩
    · rw [hpred, hvalue]
    · rw [identityRow, identityRow, href]
  next => cases hrow

namespace Resolution

variable {host : Host} {schema : Schema} {baseline : Relation} {intents : List Intent} {plan : Plan}
  {s : Progress} {facts : List WorldFact}
  (R : Resolution host schema baseline intents plan s facts)

include R

/-- The intent of the plan on the target of a field operation. -/
theorem planned_field {i : FieldIntent} (hi : .field i ∈ intents) : ∃ n ∈ plan.fields, ∃ is,
    Normalized is n ∧ i.SameTarget n ∧ i ∈ is ∧
      ∀ k, k ∈ is ↔ .field k ∈ intents ∧ k.SameTarget n := by
  obtain ⟨n, hn, href, hpred⟩ := R.planned.fieldOf i hi
  obtain ⟨is, hnormal, his⟩ := R.planned.fields n hn
  exact ⟨n, hn, is, hnormal, ⟨href, hpred⟩, (his i).mpr ⟨hi, href, hpred⟩, his⟩

/-- What is known of an intent of the plan. -/
theorem of_planned {n : FieldIntent} (hn : n ∈ plan.fields) :
    startsWith entityRefPrefix n.entityRef = true ∧
      ∃ i, .field i ∈ intents ∧ i.SameTarget n ∧ i.info = n.info := by
  obtain ⟨is, hnormal, his⟩ := R.planned.fields n hn
  obtain ⟨i, hi, href, _⟩ := hnormal.sample
  obtain ⟨hmem, htarget⟩ := (his i).mp hi
  exact ⟨href ▸ (R.fields i hmem).reference, i, hmem, htarget, (hnormal.target i hi).symm⟩

/-- A value of an intent of the plan is declared by an operation on its target. -/
theorem declared {n : FieldIntent} (hn : n ∈ plan.fields) (hkind : n.kind.Declares)
    {v : ScenarioValue} (hv : v ∈ n.values) : ∃ i, .field i ∈ intents ∧ i.SameTarget n ∧
      i.info = n.info ∧ i.kind.Declares ∧ v ∈ i.values := by
  obtain ⟨is, hnormal, his⟩ := R.planned.fields n hn
  have hne : n.kind ≠ .withoutValue := by
    intro heq
    rcases hkind with h | h | h <;> rw [h] at heq <;> cases heq
  obtain ⟨i, hi, hdeclares, hvi⟩ := hnormal.declared hne v hv
  obtain ⟨hmem, htarget⟩ := (his i).mp hi
  exact ⟨i, hmem, htarget, (hnormal.target i hi).symm, hdeclares, hvi⟩

/-- The domain of the values of a field operation. -/
theorem domain_of_value (hindexed : Indexed schema.doc schema.index) {i : FieldIntent}
    (hi : .field i ∈ intents) {v : ScenarioValue} (hv : v ∈ i.values) {tags : List String}
    (htags : domainsIn i.info.predId schema.doc.predicates = some tags) : tags[1]? = some v.tag := by
  have hvalid := R.fields i hi
  obtain ⟨fieldName, hfield⟩ := hvalid.field
  exact (domain_of_field hindexed hfield htags).trans (hvalid.typed v hv)

/-- A row of the target that is left has a fact. -/
theorem fact_of_left {n : FieldIntent} (hn : n ∈ plan.fields) {row : Row}
    (hrow : row ∈ R.trace.linked.relation.rows n.info.predId) (htargets : n.targets row = true)
    (hstay : ¬n.removes row = true) :
    ∃ f ∈ facts, f.About n.entityRef n.info.predId ∧
      f.Of schema s.syntheticIds n.info.predId row := by
  have hlast : row ∈ s.relation.rows n.info.predId := by
    rw [R.trace.mem_rows, (mem_fields R.trace.fieldPredicates R.planned.distinct
      R.trace.last_eq).2 n hn row htargets]
    exact .inl ⟨hrow, hstay⟩
  obtain ⟨f, hf, hof⟩ := R.facts.fact _ row hlast
  exact ⟨f, hf, (hof.about_iff (R.of_planned hn).1).mpr htargets, hof⟩

/-- A field that is cleared has no fact of the baseline. -/
theorem clearance_holds {i : FieldIntent} (hi : .field i ∈ intents) (hkind : i.kind = .withoutField) :
    i.Holds facts := by
  obtain ⟨n, hn, is, hnormal, htarget, his, _⟩ := R.planned_field hi
  unfold FieldIntent.Holds
  rw [hkind]
  intro f hf habout hsource
  rw [FieldIntent.About_congr htarget] at habout
  obtain ⟨row, hrow, hof⟩ := R.facts.row f hf
  rw [habout.1] at hrow hof
  have htargets := (hof.about_iff (R.of_planned hn).1).mp habout
  obtain ⟨_, _, hstay⟩ := R.trace.of_baseline hrow (hof.source.mp hsource)
  have hnot := hstay n hn rfl
  rw [FieldIntent.removes_of_replaces (hnormal.cleared i his hkind)] at hnot
  exact hnot htargets

section Fields

variable (hindexed : Indexed schema.doc schema.index)

include hindexed

/-- The fact of a row that a field intent adds. -/
theorem tail_of_fieldRow {n : FieldIntent} (hn : n ∈ plan.fields) {v : ScenarioValue}
    (hkind : n.kind.Declares) (hv : v ∈ n.values) {f : WorldFact}
    (hof : f.Of schema s.syntheticIds n.info.predId (fieldRow host n v)) : f.values.tail = [v] := by
  obtain ⟨i, hi, _, hinfo, _, hvi⟩ := R.declared hn hkind hv
  obtain ⟨tags, htags, htyped⟩ := hof.typed
  rw [← hinfo] at htags
  have htag : tags[1]? = some v.tag := R.domain_of_value hindexed hi hvi htags
  have hpair : ∃ d, (fieldRow host n v).pairValue? = some d ∧ eqvDatum d v.toRaw = true :=
    ⟨v.toRaw, rfl, v.eqv_toRaw_self⟩
  exact htyped.pair_iff htag rfl hpair

/-- What a fact about the target of a field intent comes from. -/
theorem of_about {n : FieldIntent} (hn : n ∈ plan.fields) {f : WorldFact} (hf : f ∈ facts)
    (habout : f.About n.entityRef n.info.predId) :
    (∃ row, row ∈ R.trace.linked.relation.rows n.info.predId ∧ n.targets row = true ∧
      ¬n.removes row = true ∧ f.Of schema s.syntheticIds n.info.predId row) ∨
        (n.kind.Declares ∧ ∃ v ∈ n.values, f.values.tail = [v]) := by
  obtain ⟨row, hrow, hof⟩ := R.facts.row f hf
  rw [habout.1] at hrow hof
  have htargets := (hof.about_iff (R.of_planned hn).1).mp habout
  rw [R.trace.mem_rows, (mem_fields R.trace.fieldPredicates R.planned.distinct R.trace.last_eq).2
    n hn row htargets] at hrow
  rcases hrow with ⟨hrow, hstay⟩ | ⟨v, hv, rfl⟩
  · exact .inl ⟨row, hrow, htargets, hstay, hof⟩
  · obtain ⟨hkind, hv⟩ := FieldIntent.of_adds hv
    exact .inr ⟨hkind, v, hv, R.tail_of_fieldRow hindexed hn hkind hv hof⟩

/-- A value that is added has a fact. -/
theorem has_of_adds {n : FieldIntent} (hn : n ∈ plan.fields) {v : ScenarioValue}
    (hv : v ∈ n.adds (R.trace.linked.relation.rows n.info.predId)) : n.Has facts v := by
  have htargets : n.targets (fieldRow host n v) = true := (n.targets_fieldRow n v).mpr rfl
  have hlast : fieldRow host n v ∈ s.relation.rows n.info.predId := by
    rw [R.trace.mem_rows, (mem_fields R.trace.fieldPredicates R.planned.distinct
      R.trace.last_eq).2 n hn _ htargets]
    exact .inr ⟨v, hv, rfl⟩
  obtain ⟨f, hf, hof⟩ := R.facts.fact _ _ hlast
  obtain ⟨hkind, hv⟩ := FieldIntent.of_adds hv
  exact ⟨f, hf, (hof.about_iff (R.of_planned hn).1).mpr htargets,
    R.tail_of_fieldRow hindexed hn hkind hv hof⟩

/-! ### Operations on fields -/

/-- A replacement always holds. -/
theorem replacement_holds {i : FieldIntent} (hi : .field i ∈ intents)
    (hkind : i.kind = .setEffectiveValue ∨ i.kind = .setExactMembers) : i.Holds facts := by
  obtain ⟨n, hn, is, hnormal, htarget, his, _⟩ := R.planned_field hi
  obtain ⟨hreplaces, hvalues⟩ := hnormal.replaced i his hkind
  have honly : ∀ f ∈ facts, f.About i.entityRef i.info.predId → ∃ v ∈ i.values, f.values.tail = [v] := by
    intro f hf habout
    rw [FieldIntent.About_congr htarget] at habout
    rcases R.of_about hindexed hn hf habout with ⟨row, _, htargets, hstay, _⟩ | ⟨_, v, hv, htail⟩
    · rw [FieldIntent.removes_of_replaces (hreplaces.imp_right .inl)] at hstay
      exact absurd htargets hstay
    · exact ⟨v, hvalues ▸ hv, htail⟩
  have hall : ∀ v ∈ i.values, i.Has facts v := by
    intro v hv
    rw [FieldIntent.Has_congr htarget]
    apply R.has_of_adds hindexed hn
    rw [FieldIntent.adds_of_replaces hreplaces, hvalues]
    exact hv
  unfold FieldIntent.Holds
  rcases hkind with hkind | hkind <;> rw [hkind] <;> exact ⟨honly, hall⟩

/-- A member that is ensured is always there. -/
theorem member_holds {i : FieldIntent} (hi : .field i ∈ intents) (hkind : i.kind = .ensureMember) :
    i.Holds facts := by
  obtain ⟨n, hn, is, hnormal, htarget, his, _⟩ := R.planned_field hi
  obtain ⟨hnkind, hvalues⟩ := hnormal.ensured i his hkind
  unfold FieldIntent.Holds
  rw [hkind]
  intro v hv
  rw [FieldIntent.Has_congr htarget]
  have hdeclares : n.kind.Declares := hnkind.elim (.inr ∘ .inl) (.inr ∘ .inr)
  by_cases hadds : v ∈ n.adds (R.trace.linked.relation.rows n.info.predId)
  · exact R.has_of_adds hindexed hn hadds
  · -- the value is not added because a pair with an equal object is there
    have hensure : n.kind = .ensureMember := by
      refine hnkind.resolve_left ?_
      intro hexact
      rw [FieldIntent.adds_of_replaces (.inr hexact)] at hadds
      exact hadds (hvalues v hv)
    have hadds' : ((R.trace.linked.relation.rows n.info.predId).filter n.targets).any
        (fun row => row.pairValue?.any fun d => eqvDatum v.toRaw d) = true := by
      unfold FieldIntent.adds at hadds
      rw [hensure] at hadds
      dsimp only at hadds
      rw [List.mem_filter, not_and] at hadds
      simpa using hadds (hvalues v hv)
    obtain ⟨row, hrow, hpair⟩ := List.any_eq_true.mp hadds'
    obtain ⟨hrow, htargets⟩ := List.mem_filter.mp hrow
    obtain ⟨d, hd, heqv⟩ := (Option.any_eq_true _ _).mp hpair
    have hstay : ¬n.removes row = true := by
      unfold FieldIntent.removes
      rw [hensure]
      exact Bool.false_ne_true
    obtain ⟨f, hf, habout, hof⟩ := R.fact_of_left hn hrow htargets hstay
    obtain ⟨tags, htags, htyped⟩ := hof.typed
    obtain ⟨k, hk, _, hinfo, _, hvk⟩ := R.declared hn hdeclares (hvalues v hv)
    have htag := R.domain_of_value hindexed hk hvk (hinfo ▸ htags)
    exact ⟨f, hf, habout, htyped.pair_iff htag rfl ⟨d, hd, ScenarioValue.eqv_comm.mp heqv⟩⟩

/-- The tuple of an intent of the plan is ensured by an operation. -/
theorem ensured_of_planned {j : RelationIntent} (hj : j ∈ plan.relations) (hkind : j.kind = .ensure) :
    ∃ i, .relation i ∈ intents ∧ i.kind = .ensure ∧ i.info.predId = j.info.predId ∧
      i.values = j.values ∧
        domainsIn j.info.predId schema.doc.predicates = some (j.values.map (·.tag)) := by
  obtain ⟨i, hi, hik, hp, hvs⟩ := (R.planned.ensures _ _).mp ⟨j, hj, hkind, rfl, rfl⟩
  have hdomains := (R.relations i hi).domains hindexed hik
  rw [hp, hvs] at hdomains
  exact ⟨i, hi, hik, hp, hvs, hdomains⟩

/-- The fact of the row of a tuple that is ensured. -/
theorem values_of_relationRow {j : RelationIntent} (hj : j ∈ plan.relations)
    (hkind : j.kind = .ensure) {f : WorldFact}
    (hof : f.Of schema s.syntheticIds j.info.predId (relationRow host j)) : f.values = j.values := by
  obtain ⟨_, _, _, _, _, hdomains⟩ := R.ensured_of_planned hindexed hj hkind
  obtain ⟨tags, htags, htyped⟩ := hof.typed
  rw [hdomains, Option.some.injEq] at htags
  exact htyped.eq_of_toRaw htags

/-- A field operation is not about the predicate of a row of an entity that is created. -/
theorem field_ne_created {i : CreateIntent} {info : EntityTypeInfo}
    (hinfo : entityInfo schema.index i.entityType = .ok info) {p : String} {row : Row}
    (hrow : (p, row) ∈ i.rows host info) {n : FieldIntent} (hn : n ∈ plan.fields) :
    n.info.predId ≠ p := by
  intro heq
  obtain ⟨q, hq, hqid, hflag⟩ := protected_of_created hindexed hinfo hrow
  obtain ⟨_, k, hk, htarget, _⟩ := R.of_planned hn
  exact (R.fields k hk).unprotected_predicate hindexed hq
    (hqid.trans (heq.symm.trans htarget.2.symm)) hflag

omit hindexed in
/-- A row that survives the first three passes is left by the operations. -/
theorem left_of_survives {p : String} {row : Row} (h : Survives schema plan p row) :
    Left schema intents p row := by
  constructor
  · intro i hi
    obtain ⟨n, hn, hid⟩ := (R.planned.assertions _).mpr ⟨i, hi, rfl⟩
    exact hid ▸ h.assertion n hn
  · intro i hi
    obtain ⟨n, hn, href⟩ := (R.planned.entities _).mpr ⟨i, hi, rfl⟩
    exact href ▸ h.entity n hn
  · intro i hi hkind
    obtain ⟨n, hn, hnk, hp⟩ := (R.planned.withouts _).mpr ⟨i, hi, hkind, rfl⟩
    exact hp ▸ h.relation n hn hnk

omit hindexed in
theorem survives_of_left {p : String} {row : Row} (h : Left schema intents p row) :
    Survives schema plan p row := by
  constructor
  · intro n hn
    obtain ⟨i, hi, hid⟩ := (R.planned.assertions _).mp ⟨n, hn, rfl⟩
    exact hid ▸ h.assertion i hi
  · intro n hn
    obtain ⟨i, hi, href⟩ := (R.planned.entities _).mp ⟨n, hn, rfl⟩
    exact href ▸ h.entity i hi
  · intro n hn hnk
    obtain ⟨i, hi, hkind, hp⟩ := (R.planned.withouts _).mp ⟨n, hn, hnk, rfl⟩
    exact hp ▸ h.relation i hi hkind

/-- A refused value is gone, where the operations go together. -/
theorem refusal_holds (hc : Compatible host schema baseline intents) {i : FieldIntent}
    (hi : .field i ∈ intents) (hkind : i.kind = .withoutValue) : i.Holds facts := by
  obtain ⟨n, hn, is, hnormal, htarget, his, hmem⟩ := R.planned_field hi
  unfold FieldIntent.Holds
  rw [hkind]
  intro v hv f hf habout hsecond
  have habout' := (FieldIntent.About_congr htarget).mp habout
  have hrefused := hnormal.refused i his hkind v hv
  rcases R.of_about hindexed hn hf habout' with ⟨row, hrow, htargets, hstay, hof⟩ |
    ⟨hdeclares, w, hw, htail⟩
  · -- the row was there before the fields were changed
    rcases R.trace.of_linked hrow with ⟨hrow, hsurvives⟩ | hput
    · have hkinds : ∀ k, .field k ∈ intents → k.SameTarget i →
          k.kind = .ensureMember ∨ k.kind = .withoutValue := by
        intro k hk hki
        have hkis := (hmem k).mpr ⟨hk, hki.1.trans htarget.1, hki.2.trans htarget.2⟩
        have hnot : ¬(n.kind = .setEffectiveValue ∨ n.kind = .setExactMembers ∨
            n.kind = .withoutField) := by
          intro h
          rw [FieldIntent.removes_of_replaces h] at hstay
          exact hstay htargets
        cases hkk : k.kind with
        | setEffectiveValue =>
          exact absurd ((hnormal.replaced k hkis (.inl hkk)).1.imp_right .inl) hnot
        | setExactMembers =>
          exact absurd ((hnormal.replaced k hkis (.inr hkk)).1.imp_right .inl) hnot
        | withoutField => exact absurd (hnormal.cleared k hkis hkk) hnot
        | ensureMember => exact .inl rfl
        | withoutValue => exact .inr rfl
      obtain ⟨tags, htags, htyped⟩ := hof.typed
      rw [← htarget.2] at htags
      have htag := R.domain_of_value hindexed hi hv htags
      rw [Relation.rows_sorted, ← htarget.2] at hrow
      have hleft : Left schema intents i.info.predId row :=
        R.left_of_survives (htarget.2 ▸ hsurvives)
      have hitargets : i.targets row = true := by
        unfold FieldIntent.targets at htargets ⊢
        rw [htarget.1]
        exact htargets
      obtain ⟨hnone, hpair⟩ := hc.removed i hi hkind hkinds row hrow hleft hitargets v hv
        ((htyped.second htag rfl).mp hsecond)
      have hwithout : n.kind = .withoutValue := by
        cases hnk : n.kind with
        | withoutValue => rfl
        | ensureMember =>
          obtain ⟨k, hk, hkk⟩ := hnormal.ensures hnk
          obtain ⟨hk, hkn⟩ := (hmem k).mp hk
          exact absurd hkk (hnone k hk ⟨hkn.1.trans htarget.1.symm, hkn.2.trans htarget.2.symm⟩)
        | setEffectiveValue =>
          rw [FieldIntent.removes_of_replaces (.inl hnk)] at hstay
          exact absurd htargets hstay
        | setExactMembers =>
          rw [FieldIntent.removes_of_replaces (.inr (.inl hnk))] at hstay
          exact absurd htargets hstay
        | withoutField =>
          rw [FieldIntent.removes_of_replaces (.inr (.inr hnk))] at hstay
          exact absurd htargets hstay
      rw [if_pos hwithout] at hrefused
      apply hstay
      unfold FieldIntent.removes
      rw [hwithout]
      dsimp only
      rw [htargets, Bool.true_and]
      obtain ⟨d, hd, heqv⟩ := (Option.any_eq_true _ _).mp hpair
      exact (Option.any_eq_true _ _).mpr ⟨d, hd, List.any_eq_true.mpr ⟨v, hrefused, heqv⟩⟩
    · -- a tuple that is ensured does not have the value
      generalize hp : n.info.predId = p at hput hof
      cases hput with
      | relation j hj hjk =>
        have hvalues := R.values_of_relationRow hindexed hj hjk hof
        obtain ⟨i', hi', hik', hp', hvs', _⟩ := R.ensured_of_planned hindexed hj hjk
        refine hc.refused i' i hi' hi ⟨hik', ?_, ?_⟩ hkind v hv ?_
        · rw [hp', ← hp, htarget.2]
        · rw [hvs', ← hvalues]
          exact habout.2
        · rw [hvs', ← hvalues]
          exact hsecond
      | create c _ info hinfo p row hrow =>
        exact absurd hp (R.field_ne_created hindexed hinfo hrow hn)
  · have hne : n.kind ≠ .withoutValue := by
      intro heq
      rcases hdeclares with h | h | h <;> rw [h] at heq <;> cases heq
    rw [if_neg hne] at hrefused
    have hw' : f.values[1]? = some w := by
      rw [← List.getElem?_tail, htail]
      rfl
    rw [hw', Option.some.injEq] at hsecond
    exact hrefused (hsecond ▸ hw)

/-! ### The other operations -/

omit hindexed in
/-- Where a row comes from that is there in the end. -/
theorem of_last {p : String} {row : Row} (h : row ∈ s.relation.rows p) :
    row ∈ R.trace.linked.relation.rows p ∨ ∃ n ∈ plan.fields, n.info.predId = p ∧
      n.kind.Declares ∧ ∃ v ∈ n.values, row = fieldRow host n v := by
  rw [R.trace.mem_rows] at h
  have hfields := mem_fields R.trace.fieldPredicates R.planned.distinct R.trace.last_eq
  by_cases hnone : ∀ n ∈ plan.fields, n.info.predId = p → n.targets row = false
  · exact .inl ((hfields.1 p row hnone).mp h)
  · simp only [not_forall, Bool.not_eq_false] at hnone
    obtain ⟨n, hn, rfl, htargets⟩ := hnone
    rcases (hfields.2 n hn row htargets).mp h with ⟨h, _⟩ | ⟨v, hv, rfl⟩
    · exact .inl h
    · obtain ⟨hkind, hv⟩ := FieldIntent.of_adds hv
      exact .inr ⟨n, hn, rfl, hkind, v, hv, rfl⟩

omit hindexed in
/-- A row no field operation is about is there in the end. -/
theorem last_of_linked {p : String} {row : Row} (h : row ∈ R.trace.linked.relation.rows p)
    (hnone : ∀ n ∈ plan.fields, n.info.predId = p → n.targets row = false) :
    row ∈ s.relation.rows p := by
  rw [R.trace.mem_rows]
  exact ((mem_fields R.trace.fieldPredicates R.planned.distinct R.trace.last_eq).1 p row hnone).mpr h

omit hindexed in
/-- An assertion that is removed is gone. -/
theorem assertion_holds {i : AssertionIntent} (hi : .assertion i ∈ intents) : i.Holds facts := by
  intro f hf hsource hid
  obtain ⟨row, hrow, hof⟩ := R.facts.row f hf
  obtain ⟨_, hsurvives, _⟩ := R.trace.of_baseline hrow (hof.source.mp hsource)
  exact (R.left_of_survives hsurvives).assertion i hi (hof.witness.symm.trans hid)

/-- The rows of an entity that is created are there in the end. -/
theorem last_of_created {n : CreateIntent} (hn : n ∈ plan.creates) {info : EntityTypeInfo}
    (hinfo : entityInfo schema.index n.entityType = .ok info) {p : String} {row : Row}
    (hrow : (p, row) ∈ n.rows host info) : row ∈ s.relation.rows p := by
  apply R.last_of_linked (R.trace.mem_linked.mpr (.inr ⟨n, hn, info, hinfo, hrow⟩))
  intro m hm hp
  exact absurd hp (R.field_ne_created hindexed hinfo hrow hm)

/-- An entity that is created exists. -/
theorem creation_holds {i : CreateIntent} (hi : .create i ∈ intents) : i.Holds schema facts := by
  obtain ⟨n, hn, j, _, href, hji, htype, _⟩ := R.planned.creates i hi
  obtain ⟨x, _, ⟨info, hinfo, _⟩, _⟩ := image_of_forall₂ R.trace.createsLogged hn
  have hrow := R.last_of_created hindexed hn hinfo List.mem_cons_self
  obtain ⟨f, hf, hof⟩ := R.facts.fact _ _ hrow
  rw [htype] at hinfo
  refine ⟨info, hinfo, f, hf, hof.predicate, ?_⟩
  obtain ⟨tags, _, htyped⟩ := hof.typed
  have hhead := (htyped.head_iff (R.createReferences i hi)).mpr
    (by rw [existsRow, href.trans hji]; rfl)
  -- the tuple has one cell
  generalize f.values = vs at htyped hhead ⊢
  cases htyped with
  | cons head tail =>
    cases tail
    simpa using hhead

/-- A row of the baseline that is taken out and has a refused value is a pair with that value. -/
theorem pair_of_removes {n j : FieldIntent} (hn : n ∈ plan.fields) (hkind : n.kind = .withoutValue)
    {row : Row} (hrow : row ∈ baseline.sorted.rows j.info.predId) (htarget : j.SameTarget n)
    (hj : .field j ∈ intents) {v : ScenarioValue} (hv : v ∈ j.values) (hsecond : row.HasSecond v)
    (hremoves : n.removes row = true) : row.IsPairWith v := by
  obtain ⟨is, hnormal, hmem⟩ := R.planned.fields n hn
  unfold FieldIntent.removes at hremoves
  rw [hkind] at hremoves
  dsimp only at hremoves
  obtain ⟨d, hd, hany⟩ := (Option.any_eq_true _ _).mp (Bool.and_eq_true_iff.mp hremoves).2
  obtain ⟨w, hw, hdw⟩ := List.any_eq_true.mp hany
  obtain ⟨k, hk, hwk⟩ := (hnormal.removes hkind).2 w hw
  obtain ⟨hk, hkn⟩ := (hmem k).mp hk
  obtain ⟨base, hbase⟩ := R.base
  obtain ⟨f, _, hof⟩ := hbase.fact _ _ hrow
  obtain ⟨tags, htags, htyped⟩ := hof.typed
  have htagv := R.domain_of_value hindexed hj hv htags
  have htagw := R.domain_of_value hindexed hk hwk (by rw [hkn.2, ← htarget.2]; exact htags)
  rw [htagv, Option.some.injEq] at htagw
  -- the object equals that of a refused value, which is this one
  have hfv := (htyped.second htagv rfl).mpr hsecond
  have htail := htyped.pair_iff (htagv.trans (congrArg some htagw)) rfl ⟨d, hd, hdw⟩
  have hfw : f.values[1]? = some w := by
    rw [← List.getElem?_tail, htail]
    rfl
  rw [hfv, Option.some.injEq] at hfw
  unfold Row.IsPairWith
  rw [hd]
  exact hfw ▸ hdw

/-- A tuple that is ensured is among the rows before the fields are changed, up to equality. -/
theorem linked_of_ensured {i : RelationIntent} (hi : .relation i ∈ intents) (hkind : i.kind = .ensure) :
    ∃ row ∈ R.trace.linked.relation.rows i.info.predId,
      eqvTuple row.factTuple (i.values.map (·.toRaw)) = true ∧
        ∀ f : WorldFact, f.Of schema s.syntheticIds i.info.predId row → f.values = i.values := by
  obtain ⟨j, hj, hjk, hjp, hjv⟩ := (R.planned.ensures _ _).mpr ⟨i, hi, hkind, rfl, rfl⟩
  have hdomains := (R.relations i hi).domains hindexed hkind
  obtain ⟨row, hrow, hsame⟩ := mem_ensured R.trace.relationPredicates R.planned.apart hj hjk
  have hlinked : row ∈ R.trace.linked.relation.rows i.info.predId := by
    rw [R.trace.mem_linked, R.trace.related_eq]
    exact .inl (hjp ▸ hrow)
  have heqv : eqvTuple row.factTuple (i.values.map (·.toRaw)) = true := by
    rw [← hjv]
    rcases hsame with rfl | heqv
    · exact eqvTuple_toRaw j.values
    · exact heqv
  refine ⟨row, hlinked, heqv, ?_⟩
  intro f hof
  obtain ⟨tags, htags, htyped⟩ := hof.typed
  rw [hdomains, Option.some.injEq] at htags
  exact htyped.eq_of_eqv htags heqv

/-- A tuple that is ensured is there, where the operations go together. -/
theorem tuple_holds (hc : Compatible host schema baseline intents) {i : RelationIntent}
    (hi : .relation i ∈ intents) (hkind : i.kind = .ensure) : i.Holds facts := by
  have hdomains := (R.relations i hi).domains hindexed hkind
  obtain ⟨row, hlinked, heqv, hvalues⟩ := R.linked_of_ensured hindexed hi hkind
  unfold RelationIntent.Holds
  rw [hkind]
  dsimp only
  by_cases hnone : ∀ n ∈ plan.fields, n.info.predId = i.info.predId → n.targets row = false
  · obtain ⟨f, hf, hof⟩ := R.facts.fact _ _ (R.last_of_linked hlinked hnone)
    exact ⟨f, hf, hof.predicate, hvalues f hof⟩
  · simp only [not_forall, Bool.not_eq_false] at hnone
    obtain ⟨n, hn, hp, htargets⟩ := hnone
    rw [← hp] at hlinked hvalues
    by_cases hstay : n.removes row = true
    · -- the row is taken out; the tuple is put in again
      obtain ⟨is, hnormal, his⟩ := R.planned.fields n hn
      have hhead : i.values.head?.map (·.toRaw) = some (text n.entityRef) :=
        head_of_eqv heqv htargets
      have hnames : ∀ k ∈ is, i.Names k := by
        intro k hk
        obtain ⟨_, htarget⟩ := (his k).mp hk
        exact ⟨hkind, hp.symm.trans htarget.2.symm, htarget.1 ▸ hhead⟩
      have hagain : ∀ v ∈ n.values, n.kind = .setEffectiveValue ∨ n.kind = .setExactMembers →
          i.values.tail = [v] → ∃ f ∈ facts, f.predicateId = i.info.predId ∧ f.values = i.values := by
        intro v hv hnk htail
        obtain ⟨f, hf, habout, hftail⟩ := R.has_of_adds hindexed hn
          (v := v) (by rw [FieldIntent.adds_of_replaces hnk]; exact hv)
        obtain ⟨row', _, hof⟩ := R.facts.row f hf
        obtain ⟨tags, htags, htyped⟩ := hof.typed
        rw [habout.1, hp, hdomains, Option.some.injEq] at htags
        refine ⟨f, hf, habout.1.trans hp, ?_⟩
        exact eq_of_head_tail (htyped.tags_eq.trans htags.symm) (habout.2.trans hhead.symm)
          (hftail.trans htail.symm)
      have hlisted : ∀ k ∈ is, k.kind = .setEffectiveValue ∨ k.kind = .setExactMembers →
          ∃ f ∈ facts, f.predicateId = i.info.predId ∧ f.values = i.values := by
        intro k hk hkk
        obtain ⟨hnk, hvs⟩ := hnormal.replaced k hk hkk
        obtain ⟨v, hv, htail⟩ := hc.replaced i k hi ((his k).mp hk).1 (hnames k hk) hkk
        exact hagain v (hvs ▸ hv) hnk htail
      have hcleared : ∀ k ∈ is, k.kind = .withoutField →
          ∃ f ∈ facts, f.predicateId = i.info.predId ∧ f.values = i.values := by
        intro k hk hkk
        obtain ⟨k', hk', htarget, hdeclares, v, hv, htail⟩ :=
          hc.cleared i k hi ((his k).mp hk).1 (hnames k hk) hkk
        have htarget' := ((his k).mp hk).2
        have hk'is := (his k').mpr ⟨hk', htarget.1.trans htarget'.1, htarget.2.trans htarget'.2⟩
        rcases hdeclares with hkk' | hkk' | hkk'
        · exact hlisted k' hk'is (.inl hkk')
        · exact hlisted k' hk'is (.inr hkk')
        · obtain ⟨hnk, hvs⟩ := hnormal.ensured k' hk'is hkk'
          rcases hnk with hnk | hnk
          · exact hagain v (hvs v hv) (.inr hnk) htail
          · -- a field that is cleared does not end with members that are only ensured
            have hnk' := hnormal.cleared k hk hkk
            rw [hnk] at hnk'
            rcases hnk' with h | h | h <;> cases h
      by_cases hreplaces : n.kind = .setEffectiveValue ∨ n.kind = .setExactMembers ∨
          n.kind = .withoutField
      · obtain ⟨k, hk, hkk⟩ := hnormal.replaces hreplaces
        rcases hkk with hkk | hkk | hkk
        · exact hlisted k hk (.inl hkk)
        · exact hlisted k hk (.inr hkk)
        · exact hcleared k hk hkk
      · have hwithout : n.kind = .withoutValue := by
          cases hnk : n.kind with
          | withoutValue => rfl
          | ensureMember =>
            unfold FieldIntent.removes at hstay
            rw [hnk] at hstay
            cases hstay
          | setEffectiveValue => exact absurd (.inl hnk) hreplaces
          | setExactMembers => exact absurd (.inr (.inl hnk)) hreplaces
          | withoutField => exact absurd (.inr (.inr hnk)) hreplaces
        unfold FieldIntent.removes at hstay
        rw [hwithout] at hstay
        dsimp only at hstay
        obtain ⟨_, hpair⟩ := Bool.and_eq_true_iff.mp hstay
        obtain ⟨d, hd, hany⟩ := (Option.any_eq_true _ _).mp hpair
        obtain ⟨w, hw, hdw⟩ := List.any_eq_true.mp hany
        obtain ⟨hall, hsource⟩ := hnormal.removes hwithout
        obtain ⟨k, hk, hwk⟩ := hsource w hw
        have htag := R.domain_of_value hindexed ((his k).mp hk).1 hwk
          (by rw [((his k).mp hk).2.2, hp]; exact hdomains)
        exact absurd (second_of_eqv heqv hd hdw htag)
          (hc.refused i k hi ((his k).mp hk).1 (hnames k hk) (hall k hk) w hwk)
    · obtain ⟨f, hf, habout, hof⟩ := R.fact_of_left hn hlinked htargets hstay
      exact ⟨f, hf, habout.1.trans hp, hvalues f hof⟩

/-- A relation that is emptied has no fact, where nothing is brought back. -/
theorem emptied_holds (hc : KeptOut host schema intents) {i : RelationIntent}
    (hi : .relation i ∈ intents) (hkind : i.kind = .without) : i.Holds facts := by
  unfold RelationIntent.Holds
  rw [hkind]
  intro f hf hp
  obtain ⟨row, hrow, hof⟩ := R.facts.row f hf
  rw [hp] at hrow
  rcases R.of_last hrow with hrow | ⟨n, hn, hnp, hdeclares, v, hv, _⟩
  · rcases R.trace.of_linked hrow with ⟨_, hsurvives⟩ | hput
    · exact (R.left_of_survives hsurvives).relation i hi hkind rfl
    · generalize hip : i.info.predId = p at hput
      cases hput with
      | relation j hj hjk =>
        obtain ⟨n, hn, hnk, hnp⟩ := (R.planned.withouts _).mpr ⟨i, hi, hkind, rfl⟩
        exact R.planned.apart j hj n hn hjk hnk (hip.symm.trans hnp.symm)
      | create c _ info hinfo p row hrow =>
        obtain ⟨q, hq, hqid, hflag⟩ := protected_of_created hindexed hinfo hrow
        exact (R.relations i hi).unprotected_predicate hindexed hq (hqid.trans hip.symm) hflag
  · obtain ⟨k, hk, htarget, _, hkd, hvk⟩ := R.declared hn hdeclares hv
    rw [hc.emptied i k hi hk hkind (hnp.symm.trans htarget.2.symm) hkd] at hvk
    cases hvk

/-- No fact mentions an entity that is removed, where nothing is brought back. -/
theorem removal_holds (hc : KeptOut host schema intents) {i : EntityIntent}
    (hi : .entity i ∈ intents) : i.Holds facts := by
  have he := R.references i hi
  intro f hf hmentions
  obtain ⟨row, hrow, hof⟩ := R.facts.row f hf
  have hmention := (hof.mentions_iff he).mp hmentions
  rcases R.of_last hrow with hrow | ⟨n, hn, hnp, hdeclares, v, hv, rfl⟩
  · rcases R.trace.of_linked hrow with ⟨_, hsurvives⟩ | hput
    · exact (R.left_of_survives hsurvives).entity i hi hmention
    · generalize hp : f.predicateId = p at hput hof hmention
      cases hput with
      | relation j hj hjk =>
        obtain ⟨j', hj', hjk', _, hvs, _⟩ := R.ensured_of_planned hindexed hj hjk
        obtain ⟨v, hv, hvmention⟩ := hmentions
        rw [R.values_of_relationRow hindexed hj hjk hof, ← hvs] at hv
        exact R.ensured j' i hj' hi hjk' v hv hvmention
      | create n hn info hinfo p row hrow =>
        obtain ⟨j, hj, href, htype, hvalues⟩ := R.planned.created n hn
        have hjmem : .create j ∈ intents := mem_create?.mp
          (List.mem_filter.mp (List.mem_of_mem_head? hj)).1
        rcases List.mem_cons.mp hrow with hexists | hidentity
        · -- the existence row mentions the entity that is created alone
          cases hexists
          obtain ⟨v, hv, _, hraw⟩ := hmentions
          obtain ⟨tags, _, htyped⟩ := hof.typed
          have hhead := (htyped.head_iff he).mp
          generalize f.values = vs at htyped hv hhead
          cases htyped with
          | cons head tail =>
            cases tail
            rw [List.mem_singleton] at hv
            subst hv
            have hsame := hhead (by simp [hraw])
            have hrefs : n.entityRef = i.entityRef := by simpa [text, existsRow] using hsame
            exact R.created j i hjmem hi (href.symm.trans hrefs)
        · obtain ⟨row', hrow', htuple⟩ := identity_of_leads href hvalues hidentity
          refine hc.identified i j hi hj info (htype ▸ hinfo) _ hrow' ?_
          show mentions schema i.entityRef p row' = true
          unfold Scenario.mentions at hmention ⊢
          rw [htuple]
          exact hmention
  · obtain ⟨k, hk, htarget, _, hkd, hvk⟩ := R.declared hn hdeclares hv
    obtain ⟨v', hv', htag, hraw⟩ := hmentions
    rw [← hnp] at hof
    have htail := R.tail_of_fieldRow hindexed hn hdeclares hv hof
    obtain ⟨tags, _, htyped⟩ := hof.typed
    have hhead := (htyped.head_iff he).mp
    cases hvs : f.values with
    | nil =>
      rw [hvs] at hv'
      cases hv'
    | cons x xs =>
      rw [hvs, List.tail_cons] at htail
      rw [hvs, htail] at hv'
      rcases List.mem_cons.mp hv' with rfl | hv'
      · have hsame := hhead (by rw [hvs]; simp [hraw])
        have hrefs : n.entityRef = i.entityRef := by simpa [text, fieldRow] using hsame
        exact R.changed k i hk hi (htarget.1.trans hrefs)
      · rw [List.mem_singleton] at hv'
        subst hv'
        exact hc.referred i k hi hk hkd v' hvk ⟨htag, hraw⟩

/-- A value that is declared is always there. -/
theorem has_of_declares {i : FieldIntent} (hi : .field i ∈ intents) (hkind : i.kind.Declares)
    {v : ScenarioValue} (hv : v ∈ i.values) : i.Has facts v := by
  rcases hkind with hk | hk | hk
  · have hholds := R.replacement_holds hindexed hi (.inl hk)
    unfold FieldIntent.Holds at hholds
    rw [hk] at hholds
    exact hholds.2 v hv
  · have hholds := R.replacement_holds hindexed hi (.inr hk)
    unfold FieldIntent.Holds at hholds
    rw [hk] at hholds
    exact hholds.2 v hv
  · have hholds := R.member_holds hindexed hi hk
    unfold FieldIntent.Holds at hholds
    rw [hk] at hholds
    exact hholds v hv

/-- Where nothing is brought back, by what the facts say. -/
theorem keptOut_of_facts
    (hemptied : ∀ i, .relation i ∈ intents → i.kind = .without →
      ∀ f ∈ facts, f.predicateId ≠ i.info.predId)
    (hremoved : ∀ i, .entity i ∈ intents → ∀ f ∈ facts, ¬f.Mentions i.entityRef) :
    KeptOut host schema intents := by
  constructor
  · intro i j hi hj hkind hp hdeclares
    rw [List.eq_nil_iff_forall_not_mem]
    intro v hv
    obtain ⟨f, hf, habout, _⟩ := R.has_of_declares hindexed hj hdeclares hv
    exact hemptied i hi hkind f hf (habout.1.trans hp.symm)
  · rintro i j hi hj hdeclares v hv ⟨htag, hraw⟩
    obtain ⟨f, hf, _, htail⟩ := R.has_of_declares hindexed hj hdeclares hv
    have hmem : v ∈ f.values := List.mem_of_mem_tail (htail ▸ List.mem_singleton_self v)
    exact hremoved i hi f hf ⟨v, hmem, htag, hraw⟩
  · rintro i j hi hj info hinfo ⟨p, row⟩ hrow hmention
    have hjmem : .create j ∈ intents := mem_create?.mp
      (List.mem_filter.mp (List.mem_of_mem_head? hj)).1
    obtain ⟨n, hn, j', hj', href, hjj', htype, hvalues⟩ := R.planned.creates j hjmem
    have hsame : j' = j := by
      unfold Leads at hj hj'
      rw [hjj', hj, Option.some.injEq] at hj'
      exact hj'.symm
    subst hsame
    obtain ⟨row', hrow', htuple'⟩ := identity_of_leads href.symm hvalues.symm hrow
    have hlast := R.last_of_created hindexed hn (htype ▸ hinfo)
      (List.mem_cons_of_mem _ hrow')
    obtain ⟨f, hf, hof⟩ := R.facts.fact _ _ hlast
    refine hremoved i hi f hf ((hof.mentions_iff (R.references i hi)).mpr ?_)
    unfold Scenario.mentions at hmention ⊢
    rw [htuple']
    exact hmention

/-! ### What operations that hold have in common -/

/-- **Operations that hold together go together.** -/
theorem compatible_of_holds (hall : ∀ i ∈ intents, i.Holds schema facts) :
    Compatible host schema baseline intents := by
  have hfield : ∀ i, .field i ∈ intents → i.Holds facts := fun i hi => hall _ hi
  have hrelation : ∀ i, .relation i ∈ intents → i.Holds facts := fun i hi => hall _ hi
  -- the fact of a tuple that is ensured
  have htuple : ∀ i, .relation i ∈ intents → ∀ j : FieldIntent, i.Names j → ∃ f ∈ facts,
      f.About j.entityRef j.info.predId ∧ f.values = i.values := by
    intro i hi j hnames
    have hholds := hrelation i hi
    unfold RelationIntent.Holds at hholds
    rw [hnames.1] at hholds
    obtain ⟨f, hf, hp, hvs⟩ := hholds
    exact ⟨f, hf, ⟨hp.trans hnames.2.1, hvs ▸ hnames.2.2⟩, hvs⟩
  have hkept : KeptOut host schema intents := by
    apply R.keptOut_of_facts hindexed
    · intro i hi hkind
      have hholds := hrelation i hi
      unfold RelationIntent.Holds at hholds
      rw [hkind] at hholds
      exact hholds
    · exact fun i hi => hall _ hi
  refine ⟨hkept, ?_, ?_, ?_, ?_⟩
  · intro i j hi hj hnames hkind
    obtain ⟨f, hf, habout, hvs⟩ := htuple i hi j hnames
    have hholds := hfield j hj
    unfold FieldIntent.Holds at hholds
    rw [← hvs]
    rcases hkind with hk | hk
    · rw [hk] at hholds
      exact hholds.1 f hf habout
    · rw [hk] at hholds
      exact hholds.1 f hf habout
  · intro i j hi hj hnames hkind
    obtain ⟨f, hf, habout, hvs⟩ := htuple i hi j hnames
    obtain ⟨n, hn, is, hnormal, htarget, his, _⟩ := R.planned_field hj
    have habout' := (FieldIntent.About_congr htarget).mp habout
    rcases R.of_about hindexed hn hf habout' with ⟨row, _, htargets, hstay, _⟩ |
      ⟨hdeclares, v, hv, htail⟩
    · rw [FieldIntent.removes_of_replaces (hnormal.cleared j his hkind)] at hstay
      exact absurd htargets hstay
    · obtain ⟨k, hk, hkn, _, hkd, hvk⟩ := R.declared hn hdeclares hv
      exact ⟨k, hk, ⟨hkn.1.trans htarget.1.symm, hkn.2.trans htarget.2.symm⟩, hkd, v, hvk,
        hvs ▸ htail⟩
  · intro i j hi hj hnames hkind v hv
    obtain ⟨f, hf, habout, hvs⟩ := htuple i hi j hnames
    have hholds := hfield j hj
    unfold FieldIntent.Holds at hholds
    rw [hkind] at hholds
    exact hvs ▸ hholds v hv f hf habout
  · intro j hj hkind hkinds row hrow hleft htargets v hv hsecond
    obtain ⟨n, hn, is, hnormal, htarget, his, hmem⟩ := R.planned_field hj
    have hholds := hfield j hj
    unfold FieldIntent.Holds at hholds
    rw [hkind] at hholds
    have hntargets : n.targets row = true := by
      unfold FieldIntent.targets at htargets ⊢
      rw [← htarget.1]
      exact htargets
    have hbase : row ∈ baseline.sorted.rows j.info.predId := by
      rw [Relation.rows_sorted]
      exact hrow
    have hlinked := R.trace.linked_of_survives hbase (R.survives_of_left hleft)
    rw [htarget.2] at hlinked
    have hremoves : n.removes row = true := by
      by_contra hstay
      obtain ⟨f, hf, habout, hof⟩ := R.fact_of_left hn hlinked hntargets hstay
      obtain ⟨tags, htags, htyped⟩ := hof.typed
      rw [← htarget.2] at htags
      have htag := R.domain_of_value hindexed hj hv htags
      exact hholds v hv f hf ((FieldIntent.About_congr htarget).mpr habout)
        ((htyped.second htag rfl).mpr hsecond)
    have hwithout : n.kind = .withoutValue := by
      have hnot : ¬(n.kind = .setEffectiveValue ∨ n.kind = .setExactMembers ∨
          n.kind = .withoutField) := by
        intro h
        obtain ⟨k, hk, hkk⟩ := hnormal.replaces h
        obtain ⟨hk, hkn⟩ := (hmem k).mp hk
        have hk' := hkinds k hk ⟨hkn.1.trans htarget.1.symm, hkn.2.trans htarget.2.symm⟩
        rcases hkk with hkk | hkk | hkk <;> rw [hkk] at hk' <;> rcases hk' with hk' | hk' <;> cases hk'
      cases hnk : n.kind with
      | withoutValue => rfl
      | ensureMember =>
        unfold FieldIntent.removes at hremoves
        rw [hnk] at hremoves
        cases hremoves
      | setEffectiveValue => exact absurd (.inl hnk) hnot
      | setExactMembers => exact absurd (.inr (.inl hnk)) hnot
      | withoutField => exact absurd (.inr (.inr hnk)) hnot
    obtain ⟨hallKinds, hsource⟩ := hnormal.removes hwithout
    constructor
    · intro k hk hkj hkk
      have hkis := (hmem k).mpr ⟨hk, hkj.1.trans htarget.1, hkj.2.trans htarget.2⟩
      rw [hallKinds k hkis] at hkk
      cases hkk
    · exact R.pair_of_removes hindexed hn hwithout hbase htarget hj hv hsecond hremoves

/-- **Operations that go together hold together.** -/
theorem holds_of_compatible (hc : Compatible host schema baseline intents) :
    ∀ i ∈ intents, i.Holds schema facts := by
  intro i hi
  cases i with
  | field i =>
    show i.Holds facts
    cases hk : i.kind with
    | setEffectiveValue => exact R.replacement_holds hindexed hi (.inl hk)
    | setExactMembers => exact R.replacement_holds hindexed hi (.inr hk)
    | ensureMember => exact R.member_holds hindexed hi hk
    | withoutField => exact R.clearance_holds hi hk
    | withoutValue => exact R.refusal_holds hindexed hc hi hk
  | relation i =>
    show i.Holds facts
    cases hk : i.kind with
    | ensure => exact R.tuple_holds hindexed hc hi hk
    | without => exact R.emptied_holds hindexed hc.toKeptOut hi hk
  | create i => exact R.creation_holds hindexed hi
  | entity i => exact R.removal_holds hindexed hc.toKeptOut hi
  | assertion i => exact R.assertion_holds hi

end Fields

end Resolution

/-- **The operations of a resolved specification hold in its effective world** exactly if they go
together. -/
theorem operations_hold_iff {host : Host} {schema : Schema} {spec : ScenarioSpec}
    {baseline : Relation} {baseViewDigest admissibilityDigest : String} {resolved : ResolvedScenario}
    (hschema : buildSchemaIndex host.entity schema.doc = .ok schema.index)
    (h : resolveScenario host schema spec baseline baseViewDigest admissibilityDigest =
      .ok resolved) :
    (∀ op ∈ spec.operations, op.Holds host schema resolved.effectiveWorld.facts) ↔
      Compatible host schema baseline (spec.intents host schema) := by
  have hindexed := indexed_of_build hschema
  obtain ⟨hintents, plan, s, ⟨R⟩, _⟩ := resolution_of_ok h
  constructor
  · intro hall
    apply R.compatible_of_holds hindexed
    intro i hi
    obtain ⟨op, hop, hi⟩ := mem_intents.mp hi
    obtain ⟨j, hj, hholds⟩ := hall op hop
    rw [hi, Except.ok.injEq] at hj
    exact hj ▸ hholds
  · intro hc op hop
    obtain ⟨i, hi⟩ := hintents op hop
    exact ⟨i, hi, R.holds_of_compatible hindexed hc i (mem_intents.mpr ⟨op, hop, hi⟩)⟩

/-! ## A member and a refused value -/

mutual

/-- The texts of a document, one after the other. -/
def textsOf : Datum → List UInt8
  | .leaf (.str s) => s.toList.map fun c => UInt8.ofNat c.toNat
  | .leaf _ => [0]
  | .arr xs => textsOfList xs
  | .obj fs => textsOfFields fs

def textsOfList : List Datum → List UInt8
  | [] => []
  | x :: xs => textsOf x ++ textsOfList xs

def textsOfFields : List (String × Datum) → List UInt8
  | [] => []
  | f :: fs => textsOf f.2 ++ textsOfFields fs

end

/-- A host whose digest is the end of what it reads. -/
def tagHost : Host where
  entity :=
    { db :=
        { sha256 := fun raw => (raw.reverse ++ List.replicate 32 0).take 32
          shake256 := fun _ => .empty
          floatRepr := fun _ => "0.0" }
      str := fun _ => ""
      reprValue := fun _ => ""
      reprText := fun s => s
      fullmatch := fun _ _ => .ok true }
  dumps := textsOf

/-- A predicate of persons with a second column. -/
def personField (name domain cardinality : String) (identity : Option Bool) : PredicateDoc where
  predId := "Person:" ++ name
  ownerType := some "Person"
  pyFieldName := some name
  cardinality := some cardinality
  argSpecs := [⟨"person", "entity_ref"⟩, ⟨name, domain⟩]
  groupKeyIndexes := [0]
  identityField := identity

/-- Persons with tags and friends. -/
def personDoc : SchemaDoc where
  entities := [⟨"Person", [{ name := "id", typeDomain := "string" }]⟩]
  predicates := [
    { predId := "Person:exists", ownerType := some "Person", cardinality := some "single"
      argSpecs := [⟨"person", "entity_ref"⟩], groupKeyIndexes := [0], entityExists := some true },
    personField "id" "string" "single" (some true), personField "tag" "string" "multi" none,
    personField "friend" "entity_ref" "multi" none]

/-- The schema of persons, with an index. -/
def personSchema : Schema where
  doc := personDoc
  index := ((buildSchemaIndex tagHost.entity personDoc).toOption).getD ⟨[], [], [], [], []⟩
  digest := "sha256:" ++ String.ofList (List.replicate 64 '0')

theorem personSchema_built :
    buildSchemaIndex tagHost.entity personSchema.doc = .ok personSchema.index := by
  obtain ⟨index, h, _⟩ := exists_ok_of_any (p := fun _ => true)
    (by rfl : (buildSchemaIndex tagHost.entity personDoc).toOption.any (fun _ => true) =
      true)
  have hindex : personSchema.index = index := by
    unfold personSchema
    rw [h]
    rfl
  rw [hindex]
  exact h

def person (id : String) : EntityRef := ⟨"Person", [("id", text id)], none⟩

/-- The reference of a person. -/
def personRef (id : String) : String :=
  ((encodeEntityRef tagHost.entity personSchema.index (person id)).toOption).getD ""

def stringValue (s : String) : ScenarioValue where
  tag := "string"
  value := .str s
  canonical := by
    have hatom : valAtomForClaimArg "string" (text s) = .ok (.str s) := rfl
    have hraw : rawValue "string" (.str s) = some (text s) := rfl
    unfold IsCanonical
    rw [hraw, Option.any_some, hatom]
    exact decide_eq_true rfl

/-- The person `p`, with the tags of some rows. -/
def personRelation (tags friends : List Row) : Relation where
  entries := [("Person:exists", [⟨"a0", [text (personRef "p")]⟩]),
    ("Person:id", [⟨"a1", [text (personRef "p"), text "p"]⟩]),
    ("Person:tag", tags), ("Person:friend", friends)]
  nodup := by simp [Dict.keys]

/-- The target of an operation on a field of the person `p`. -/
def onField (premiseId fieldName : String) : FieldBase where
  premiseId := premiseId
  entity := person "p"
  fieldName := fieldName

/-- A member to ensure and a value to remove. -/
def memberAndRefusal : ScenarioSpec where
  operations := [.ensureMember (onField "x" "tag") (stringValue "a"),
    .withoutValue (onField "y" "tag") (stringValue "b")]
  premises := by decide

/-- The person `p` is tagged `b`. -/
def tagged : Relation := personRelation [⟨"a2", [text (personRef "p"), text "b"]⟩] []

/-- Is a refused value among the facts of its field? -/
def stillThere (facts : List WorldFact) (op : Operation) : Bool :=
  match intentOf tagHost personSchema op with
  | .ok (.field i) => decide (i.kind = .withoutValue) && i.values.any fun v => facts.any fun f =>
      decide (f.predicateId = i.info.predId ∧
        f.values.head?.map (·.toRaw) = some (text i.entityRef) ∧ f.values[1]? = some v)
  | _ => false

theorem not_holds_of_stillThere {facts : List WorldFact} {op : Operation}
    (h : stillThere facts op = true) : ¬op.Holds tagHost personSchema facts := by
  rintro ⟨i, hi, hholds⟩
  unfold stillThere at h
  rw [hi] at h
  cases i with
  | field i =>
    obtain ⟨hkind, h⟩ := Bool.and_eq_true_iff.mp h
    obtain ⟨v, hv, h⟩ := List.any_eq_true.mp h
    obtain ⟨f, hf, h⟩ := List.any_eq_true.mp h
    obtain ⟨hp, hhead, hsecond⟩ := of_decide_eq_true h
    have hholds : i.Holds facts := hholds
    unfold FieldIntent.Holds at hholds
    rw [of_decide_eq_true hkind] at hholds
    exact hholds v hv f hf ⟨hp, hhead⟩ hsecond
  | _ => cases h

theorem personRef_p : personRef "p" =
    "idref_v1:Person:oaaqaaaaafsgsaqaaaaacaaaabxg643smviamaaaaaadc5s7mzsq" := by
  decide +kernel

/-- A person is found under its reference. The reference is not computed again where a run reads
this, which the evaluation of a whole resolution would do many times. -/
theorem canonicalEntityRef_person {id e : String} (h : personRef id = e) (he : e ≠ "") :
    canonicalEntityRef tagHost personSchema (person id) =
      adaptValueError "SCENARIO_ENTITY_REFERENCE_INVALID" (do
        let info ← entityInfo personSchema.index "Person"
        .ok (person id, e, info)) := by
  have hencoded : encodeEntityRef tagHost.entity personSchema.index (person id) = .ok e := by
    unfold personRef at h
    cases hrun : encodeEntityRef tagHost.entity personSchema.index (person id) with
    | error fault =>
      rw [hrun] at h
      exact absurd h.symm he
    | ok encoded =>
      rw [hrun] at h
      exact congrArg Except.ok h
  have hidentity : materializeIdentity tagHost.entity personSchema.index "Person"
      [("id", text id)] = .ok [("id", text id)] := rfl
  unfold canonicalEntityRef
  show adaptValueError _ ((materializeIdentity tagHost.entity personSchema.index "Person"
    [("id", text id)]).bind _) = _
  rw [hidentity]
  show adaptValueError _
    ((encodeEntityRef tagHost.entity personSchema.index (person id)).bind _) = _
  rw [hencoded]
  rfl

theorem memberAndRefusal_resolved : ∃ resolved,
    resolveScenario tagHost personSchema memberAndRefusal tagged personSchema.digest
        personSchema.digest = .ok resolved ∧
      memberAndRefusal.operations.any (stillThere resolved.effectiveWorld.facts) = true := by
  apply exists_ok_of_any
  unfold resolveScenario memberAndRefusal tagged personRelation onField
  simp only [List.any_cons, List.any_nil, stillThere, mapOk, resolveOperation, intentOf,
    fieldIntent, personRef_p, canonicalEntityRef_person personRef_p (by decide)]
  decide +kernel

/-- **A refused value is forgotten** where a member of the field is ensured. -/
theorem refusal_forgotten :
    buildSchemaIndex tagHost.entity personSchema.doc = .ok personSchema.index ∧
      ∃ resolved, resolveScenario tagHost personSchema memberAndRefusal tagged personSchema.digest
          personSchema.digest = .ok resolved ∧
        ¬ ∀ op ∈ memberAndRefusal.operations,
          op.Holds tagHost personSchema resolved.effectiveWorld.facts := by
  obtain ⟨resolved, h, hthere⟩ := memberAndRefusal_resolved
  refine ⟨personSchema_built, resolved, h, ?_⟩
  intro hall
  obtain ⟨op, hop, hthere⟩ := List.any_eq_true.mp hthere
  exact not_holds_of_stillThere hthere (hall op hop)

theorem operations_hold_iff_memberAndRefusal : ∃ resolved,
    resolveScenario tagHost personSchema memberAndRefusal tagged personSchema.digest
        personSchema.digest = .ok resolved ∧
      ((∀ op ∈ memberAndRefusal.operations,
          op.Holds tagHost personSchema resolved.effectiveWorld.facts) ↔
        Compatible tagHost personSchema tagged (memberAndRefusal.intents tagHost personSchema)) := by
  obtain ⟨resolved, h, _⟩ := memberAndRefusal_resolved
  exact ⟨resolved, h, operations_hold_iff personSchema_built h⟩

end FactGraph.Scenario
