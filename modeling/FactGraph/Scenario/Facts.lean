import FactGraph.Scenario.Typing

/-!
# The facts of a relation

A world has a fact for every row, with the cells typed under the domains of the predicate
(`TypedAs`). What the resolver asks of a row is told of its fact: which entity it is about, which
entities it mentions, and whether it is a given tuple.
-/

namespace FactGraph.Scenario

open Protocol Store Check Entity

/-! ## Typed tuples -/

/-- The values of the cells of a tuple, under their domains. -/
inductive TypedAs : List String → List Datum → List ScenarioValue → Prop
  | nil : TypedAs [] [] []
  | cons {tag : String} {d : Datum} {v : ScenarioValue} {tags : List String} {ds : List Datum}
      {vs : List ScenarioValue} (head : ScenarioValue.fromRaw tag d = .ok v)
      (tail : TypedAs tags ds vs) : TypedAs (tag :: tags) (d :: ds) (v :: vs)

theorem typedAs_iff {tags : List String} {ds : List Datum} {vs : List ScenarioValue} :
    TypedAs tags ds vs ↔ ds.length = tags.length ∧
      mapOk (fun p => ScenarioValue.fromRaw p.1 p.2) (tags.zip ds) = .ok vs := by
  rw [mapOk_ok_iff]
  constructor
  · intro h
    induction h with
    | nil => exact ⟨rfl, .nil⟩
    | cons head _ ih => exact ⟨by simp [ih.1], .cons head ih.2⟩
  · rintro ⟨hlen, h⟩
    induction tags generalizing ds vs with
    | nil =>
      cases ds with
      | nil =>
        cases h
        exact .nil
      | cons d ds => simp at hlen
    | cons tag tags ih =>
      cases ds with
      | nil => simp at hlen
      | cons d ds =>
        cases h with
        | cons head tail => exact .cons head (ih (by simpa using hlen) tail)

section TypedAs

variable {tags : List String} {ds : List Datum} {vs ws : List ScenarioValue} {e : String}

theorem TypedAs.tags_eq (h : TypedAs tags ds vs) : vs.map (·.tag) = tags := by
  induction h with
  | nil => rfl
  | cons head _ ih => rw [List.map_cons, ih, (ScenarioValue.fromRaw_ok head).1]

/-- The first cell is a given reference before it is typed exactly if it is one afterwards. -/
theorem TypedAs.head_iff (he : startsWith entityRefPrefix e = true) (h : TypedAs tags ds vs) :
    vs.head?.map (·.toRaw) = some (text e) ↔ ds.head? = some (text e) := by
  cases h with
  | nil => simp
  | cons head _ =>
    simpa using ScenarioValue.toRaw_eq_ref_iff he head

/-- Equal tuples have the same values. -/
theorem TypedAs.eq_of_eqv (h : TypedAs tags ds ws) (htags : vs.map (·.tag) = tags)
    (heqv : eqvTuple ds (vs.map (·.toRaw)) = true) : ws = vs := by
  unfold eqvTuple at heqv
  induction h generalizing vs with
  | nil =>
    rw [List.map_eq_nil_iff] at htags
    rw [htags]
  | @cons tag d w tags ds ws head tail ih =>
    cases vs with
    | nil => simp at htags
    | cons v vs =>
      rw [List.map_cons, List.cons.injEq] at htags
      rw [List.map_cons, eqvData, Bool.and_eq_true] at heqv
      obtain ⟨rfl, htags⟩ := htags
      rw [ScenarioValue.eq_of_eqv head heqv.1, ih htags heqv.2]

/-- A tuple of values is read back. -/
theorem TypedAs.eq_of_toRaw (h : TypedAs tags (vs.map (·.toRaw)) ws) (htags : vs.map (·.tag) = tags) :
    ws = vs := by
  subst htags
  induction vs generalizing ws with
  | nil =>
    cases h
    rfl
  | cons v vs ih =>
    cases h with
    | cons head tail =>
      rw [v.fromRaw_toRaw, Except.ok.injEq] at head
      rw [ih tail, head]

/-- A row mentions an entity exactly if one of its values is a reference to it. -/
theorem TypedAs.mentionsEntity (he : startsWith entityRefPrefix e = true) (h : TypedAs tags ds vs) :
    ∃ b, mentionsEntity e tags ds = .ok b ∧
      (b = true ↔ ∃ v ∈ vs, v.tag = "entity_ref" ∧ v.toRaw = text e) := by
  induction h with
  | nil => exact ⟨false, rfl, by simp⟩
  | @cons tag d v tags ds vs head tail ih =>
    have htag := (ScenarioValue.fromRaw_ok head).1
    have hraw := ScenarioValue.toRaw_eq_ref_iff he head
    unfold Scenario.mentionsEntity
    by_cases hhead : tag = "entity_ref" ∧ d = text e
    · rw [if_pos (by simp [hhead.1, hhead.2])]
      refine ⟨true, rfl, ?_⟩
      simp only [true_iff]
      exact ⟨v, List.mem_cons_self, htag.trans hhead.1, hraw.mpr hhead.2⟩
    · have hne : (decide (tag = "entity_ref") && eqvDatum d (text e)) = false := by
        rw [Bool.eq_false_iff]
        intro hboth
        rw [Bool.and_eq_true, decide_eq_true_eq, eqvDatum_text] at hboth
        exact hhead hboth
      rw [hne]
      obtain ⟨b, hb, hiff⟩ := ih
      refine ⟨b, hb, ?_⟩
      rw [hiff, List.exists_mem_cons_iff]
      constructor
      · exact .inr
      · rintro (⟨hv, hv'⟩ | h)
        · exact absurd ⟨htag.symm.trans hv, hraw.mp hv'⟩ hhead
        · exact h

/-- The second cell of a pair. -/
theorem TypedAs.pair_iff {row : Row} {tag : String} (h : TypedAs tags row.factTuple vs)
    (htag : tags[1]? = some tag) {v : ScenarioValue} (hv : v.tag = tag) :
    (∃ d, row.pairValue? = some d ∧ eqvDatum d v.toRaw = true) → vs.tail = [v] := by
  rintro ⟨d, hpair, heqv⟩
  unfold Row.pairValue? at hpair
  split at hpair
  next first value htuple =>
    cases hpair
    rw [htuple] at h
    cases h with
    | cons _ tail =>
      cases tail with
      | cons head tail =>
        cases tail
        simp only [List.getElem?_cons_succ, List.getElem?_cons_zero, Option.some.injEq] at htag
        rw [htag, ← hv] at head
        rw [List.tail_cons, ScenarioValue.eq_of_eqv head heqv]
  next => cases hpair

end TypedAs

/-! ## Facts of rows -/

/-- `f` is the fact of a row. -/
structure WorldFact.Of (schema : Schema) (synthetic : List String) (p : String) (row : Row)
    (f : WorldFact) : Prop where
  predicate : f.predicateId = p
  witness : f.witnessId = row.asrtId
  source : f.source = .baseline ↔ row.asrtId ∉ synthetic
  typed : ∃ tags, domainsIn p schema.doc.predicates = some tags ∧ TypedAs tags row.factTuple f.values

theorem predicateDomains_ok_iff {host : Host} {schema : Schema} {p : String} {tags : List String} :
    predicateDomains host schema p = .ok tags ↔ domainsIn p schema.doc.predicates = some tags := by
  unfold predicateDomains
  split
  next domains h => rw [h, Except.ok.injEq, Option.some.injEq]
  next h => simp [h, reject]

theorem of_typedFact {host : Host} {schema : Schema} {synthetic : List String} {p : String}
    {tags : List String} {row : Row} {f : WorldFact}
    (htags : domainsIn p schema.doc.predicates = some tags)
    (h : typedFact host p tags synthetic row = .ok f) : f.Of schema synthetic p row := by
  unfold typedFact at h
  obtain ⟨values, hvalues, h⟩ := bind_ok_iff.mp h
  unfold typedValues at hvalues
  obtain ⟨hlen, hvalues⟩ := bind_unit_ok_iff.mp hvalues
  rw [adaptShape_ok_iff] at hvalues
  unfold worldFact at h
  obtain ⟨_, h⟩ := bind_unit_ok_iff.mp h
  obtain ⟨_, h⟩ := bind_unit_ok_iff.mp h
  obtain ⟨_, h⟩ := bind_unit_ok_iff.mp h
  cases h
  refine ⟨rfl, rfl, ?_, tags, htags, typedAs_iff.mpr ⟨of_decide_eq_true (demand_ok_iff.mp hlen),
    hvalues⟩⟩
  show (if row.asrtId ∈ synthetic then Source.scenario else Source.baseline) = .baseline ↔ _
  split <;> simp_all

/-- **The facts of a relation** are those of its rows. -/
structure FactsOf (schema : Schema) (r : Relation) (synthetic : List String)
    (facts : List WorldFact) : Prop where
  row : ∀ f ∈ facts, ∃ row ∈ r.rows f.predicateId, f.Of schema synthetic f.predicateId row
  fact : ∀ p, ∀ row ∈ r.rows p, ∃ f ∈ facts, f.Of schema synthetic p row

theorem factsOf_of_typedFacts {host : Host} {schema : Schema} {r : Relation}
    {synthetic : List String} {facts : List WorldFact}
    (h : typedFacts host schema r synthetic = .ok facts) : FactsOf schema r synthetic facts := by
  unfold typedFacts at h
  constructor
  · intro f hf
    obtain ⟨⟨p, rows⟩, hp, fs, hfs, hf⟩ := (mem_of_collect_ok h).mp hf
    obtain ⟨tags, htags, hfs⟩ := bind_ok_iff.mp hfs
    obtain ⟨row, hrow, hfact⟩ := mem_of_mapOk hfs hf
    have hof := of_typedFact (predicateDomains_ok_iff.mp htags) hfact
    rw [Relation.mem_entries] at hp
    rw [hof.predicate, Relation.rows_of_rows? hp]
    exact ⟨row, hrow, hof⟩
  · intro p row hrow
    have hp := Relation.mem_entries.mpr (Relation.rows?_of_mem (Relation.mem_predicates_of_row hrow))
    obtain ⟨fs, hfs⟩ := ok_of_collect_ok h _ hp
    obtain ⟨tags, htags, hmap⟩ := bind_ok_iff.mp hfs
    obtain ⟨f, hf, hfact⟩ := image_of_mapOk hmap hrow
    exact ⟨f, (mem_of_collect_ok h).mpr ⟨_, hp, fs, hfs, hf⟩,
      of_typedFact (predicateDomains_ok_iff.mp htags) hfact⟩

namespace WorldFact

/-- Is a fact about an entity, in a predicate? -/
def About (f : WorldFact) (e p : String) : Prop :=
  f.predicateId = p ∧ f.values.head?.map (·.toRaw) = some (text e)

/-- Does a fact mention an entity? -/
def Mentions (f : WorldFact) (e : String) : Prop :=
  ∃ v ∈ f.values, v.tag = "entity_ref" ∧ v.toRaw = text e

variable {schema : Schema} {synthetic : List String} {p e : String} {row : Row} {f : WorldFact}

theorem Of.mentions_iff (he : startsWith entityRefPrefix e = true) (h : f.Of schema synthetic p row) :
    f.Mentions e ↔ mentions schema e p row = true := by
  obtain ⟨tags, htags, htyped⟩ := h.typed
  obtain ⟨b, hb, hiff⟩ := htyped.mentionsEntity he
  unfold Scenario.mentions
  rw [htags]
  show _ ↔ (Except.toOption (mentionsEntity e tags row.factTuple)).getD false = true
  rw [hb]
  exact hiff.symm

theorem Of.about_iff {i : FieldIntent} (he : startsWith entityRefPrefix i.entityRef = true)
    (h : f.Of schema synthetic p row) : f.About i.entityRef p ↔ i.targets row = true := by
  obtain ⟨tags, _, htyped⟩ := h.typed
  unfold About FieldIntent.targets
  rw [and_iff_right h.predicate, htyped.head_iff he]
  cases row.factTuple.head? with
  | none => simp
  | some d => simp

end WorldFact

end FactGraph.Scenario
