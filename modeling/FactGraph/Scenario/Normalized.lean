import FactGraph.Scenario.Typing

/-!
# What normalization keeps

The intents on one target amount to one (`Normalized`): what each of them asks for is in the
normalized intent, save the values to remove where there are members to ensure, which are forgotten.
The plan of a scenario has the intents of its operations, each target once (`Planned`).
-/

namespace FactGraph.Scenario

open Protocol Store Check Entity

/-! ## Intents of operations -/

/-- What is known of the intent of an operation on a field. -/
structure FieldIntent.Valid (schema : Schema) (i : FieldIntent) : Prop where
  reference : startsWith entityRefPrefix i.entityRef = true
  field : ∃ fieldName, Dict.get? schema.index.fieldPredicates (i.entityType, fieldName) = some i.info
  unprotected : i.info.isIdentityField = false ∧ i.info.isEntityExists = false
  single : i.kind = .setEffectiveValue → i.info.cardinality = "single"
  multi : i.kind = .ensureMember ∨ i.kind = .setExactMembers → i.info.cardinality = "multi"
  one : i.kind = .setEffectiveValue ∨ i.kind = .ensureMember ∨ i.kind = .withoutValue →
    ∃ v, i.values = [v]
  none : i.kind = .withoutField → i.values = []
  typed : ∀ v ∈ i.values, i.info.valueTypeDomain = some v.tag

/-- What is known of the intent of an operation on a relation. -/
structure RelationIntent.Valid (schema : Schema) (i : RelationIntent) : Prop where
  relation : ∃ p, Dict.get? schema.index.predicatesById p = some i.info ∧
    isScenarioRelationPredicate schema p = true ∧ (i.kind = .ensure →
      domainsIn p schema.doc.predicates = some (i.values.map (·.tag)))

theorem encodeEntityRef_prefix {host : Entity.Host} {index : SchemaIndex} {ref : EntityRef}
    {e : String} (h : encodeEntityRef host index ref = .ok e) :
    startsWith entityRefPrefix e = true := by
  unfold encodeEntityRef at h
  obtain ⟨info, _, h⟩ := bind_ok_iff.mp h
  obtain ⟨tuples, _, h⟩ := bind_ok_iff.mp h
  rw [lift_ok_iff] at h
  unfold View.encodeIdrefV1 at h
  obtain ⟨_, h⟩ := bind_unit_ok_iff.mp h
  obtain ⟨_, _, h⟩ := bind_ok_iff.mp h
  obtain ⟨_, _, h⟩ := bind_ok_iff.mp h
  obtain ⟨body, _, h⟩ := bind_ok_iff.mp h
  cases h
  show startsWith entityRefPrefix (entityRefPrefix ++ ref.entityType ++ ":" ++ _) = true
  unfold startsWith
  rw [String.append_assoc, String.append_assoc, String.toList_append, List.isPrefixOf_iff_prefix]
  exact List.prefix_append _ _

theorem canonicalEntityRef_ok {host : Host} {schema : Schema} {entity canonical : EntityRef}
    {e : String} {info : EntityTypeInfo}
    (h : canonicalEntityRef host schema entity = .ok (canonical, e, info)) :
    canonical.entityType = entity.entityType ∧ startsWith entityRefPrefix e = true ∧
      entityInfo schema.index entity.entityType = .ok info := by
  unfold canonicalEntityRef at h
  rw [adaptValueError_ok_iff] at h
  obtain ⟨identity, _, h⟩ := bind_ok_iff.mp h
  obtain ⟨encoded, hencoded, h⟩ := bind_ok_iff.mp h
  obtain ⟨info', hinfo, h⟩ := bind_ok_iff.mp h
  cases h
  exact ⟨rfl, encodeEntityRef_prefix hencoded, hinfo⟩

theorem checkedValue_ok {host : Host} {value v : ScenarioValue} {info : PredicateInfo}
    (h : checkedValue host value info = .ok v) :
    v = value ∧ info.valueTypeDomain = some value.tag := by
  unfold checkedValue at h
  obtain ⟨htag, h⟩ := bind_unit_ok_iff.mp h
  obtain ⟨_, h⟩ := bind_unit_ok_iff.mp h
  cases h
  exact ⟨rfl, of_decide_eq_true (demand_ok_iff.mp htag)⟩

theorem checkedValues_ok {host : Host} {info : PredicateInfo} {values vs : List ScenarioValue}
    (h : mapOk (checkedValue host · info) values = .ok vs) :
    vs = values ∧ ∀ v ∈ values, info.valueTypeDomain = some v.tag := by
  have hsame : vs.map id = values.map id :=
    map_of_mapOk h fun a b hab => (checkedValue_ok hab).1
  simp only [List.map_id] at hsame
  refine ⟨hsame, ?_⟩
  intro v hv
  obtain ⟨w, _, hvw⟩ := image_of_mapOk h hv
  exact (checkedValue_ok hvw).2

/-- The target and the values of an operation on a field. -/
theorem fieldIntent_ok {host : Host} {schema : Schema} {base : FieldBase} {kind : FieldKind}
    {values : PredicateInfo → Except Fault (List ScenarioValue)} {intent : Intent}
    (h : fieldIntent host schema base kind values = .ok intent) :
    ∃ i, intent = .field i ∧ i.kind = kind ∧ i.entityType = base.entity.entityType ∧
      i.fieldName = base.fieldName ∧ i.premiseIds = [base.premiseId] ∧
      i.originRefs = base.originRefs ∧ values i.info = .ok i.values ∧
      startsWith entityRefPrefix i.entityRef = true ∧
      Dict.get? schema.index.fieldPredicates (i.entityType, i.fieldName) = some i.info ∧
      i.info.isIdentityField = false ∧ i.info.isEntityExists = false := by
  unfold fieldIntent at h
  obtain ⟨⟨canonical, e, entity⟩, hentity, h⟩ := bind_ok_iff.mp h
  obtain ⟨info, hinfo, h⟩ := bind_ok_iff.mp h
  obtain ⟨vs, hvs, h⟩ := bind_ok_iff.mp h
  cases h
  unfold fieldInfo at hinfo
  obtain ⟨info', hfield, hinfo⟩ := bind_ok_iff.mp hinfo
  obtain ⟨hprotected, hinfo⟩ := bind_unit_ok_iff.mp hinfo
  obtain ⟨_, hinfo⟩ := bind_unit_ok_iff.mp hinfo
  cases hinfo
  rw [adaptValueError_ok_iff] at hfield
  have hget : Dict.get? schema.index.fieldPredicates (base.entity.entityType, base.fieldName) =
      some info := by
    unfold fieldPredicate at hfield
    split at hfield
    next hget =>
      cases hfield
      exact hget
    next => cases hfield
  have hflags : info.isIdentityField = false ∧ info.isEntityExists = false := by
    simpa using demand_ok_iff.mp hprotected
  exact ⟨_, rfl, rfl, rfl, rfl, rfl, rfl, hvs, (canonicalEntityRef_ok hentity).2.1, hget, hflags⟩

/-- The intent of an operation on a field is valid. -/
theorem valid_of_field {host : Host} {schema : Schema} {op : Operation} {i : FieldIntent}
    (h : intentOf host schema op = .ok (.field i)) : i.Valid schema := by
  cases op with
  | setEffectiveValue base value =>
    obtain ⟨i', hi, hkind, _, _, _, _, hvalues, href, hget, hflags⟩ := fieldIntent_ok h
    cases hi
    obtain ⟨hcard, hvalues⟩ := bind_unit_ok_iff.mp hvalues
    obtain ⟨hsame, htyped⟩ := checkedValues_ok hvalues
    exact ⟨href, ⟨_, hget⟩, hflags, fun _ => of_decide_eq_true (demand_ok_iff.mp hcard),
      by simp [hkind], fun _ => ⟨value, hsame⟩, by simp [hkind], hsame ▸ htyped⟩
  | ensureMember base value =>
    obtain ⟨i', hi, hkind, _, _, _, _, hvalues, href, hget, hflags⟩ := fieldIntent_ok h
    cases hi
    obtain ⟨hcard, hvalues⟩ := bind_unit_ok_iff.mp hvalues
    obtain ⟨hsame, htyped⟩ := checkedValues_ok hvalues
    exact ⟨href, ⟨_, hget⟩, hflags, by simp [hkind],
      fun _ => of_decide_eq_true (demand_ok_iff.mp hcard), fun _ => ⟨value, hsame⟩,
      by simp [hkind], hsame ▸ htyped⟩
  | setExactMembers base values =>
    obtain ⟨i', hi, hkind, _, _, _, _, hvalues, href, hget, hflags⟩ := fieldIntent_ok h
    cases hi
    obtain ⟨hcard, hvalues⟩ := bind_unit_ok_iff.mp hvalues
    obtain ⟨hsame, htyped⟩ := checkedValues_ok hvalues
    exact ⟨href, ⟨_, hget⟩, hflags, by simp [hkind],
      fun _ => of_decide_eq_true (demand_ok_iff.mp hcard), by simp [hkind], by simp [hkind],
      hsame ▸ htyped⟩
  | withoutField base =>
    obtain ⟨i', hi, hkind, _, _, _, _, hvalues, href, hget, hflags⟩ := fieldIntent_ok h
    cases hi
    have hnil : i.values = [] := (Except.ok.inj hvalues).symm
    exact ⟨href, ⟨_, hget⟩, hflags, by simp [hkind], by simp [hkind], by simp [hkind],
      fun _ => hnil, by simp [hnil]⟩
  | withoutValue base value =>
    obtain ⟨i', hi, hkind, _, _, _, _, hvalues, href, hget, hflags⟩ := fieldIntent_ok h
    cases hi
    obtain ⟨hsame, htyped⟩ := checkedValues_ok hvalues
    exact ⟨href, ⟨_, hget⟩, hflags, by simp [hkind], by simp [hkind], fun _ => ⟨value, hsame⟩,
      by simp [hkind], hsame ▸ htyped⟩
  | createEphemeralEntity premiseId entity originRefs =>
    obtain ⟨_, _, h⟩ := bind_ok_iff.mp h
    obtain ⟨_, _, h⟩ := bind_ok_iff.mp h
    cases h
  | ensureRelation premiseId predicateId values originRefs =>
    obtain ⟨_, _, h⟩ := bind_ok_iff.mp h
    obtain ⟨_, h⟩ := bind_unit_ok_iff.mp h
    cases h
  | withoutRelation premiseId predicateId originRefs =>
    obtain ⟨_, _, h⟩ := bind_ok_iff.mp h
    cases h
  | withoutEntity premiseId entity originRefs =>
    obtain ⟨_, _, h⟩ := bind_ok_iff.mp h
    cases h
  | withoutAssertion premiseId assertionId originRefs => cases h

/-! ## Groups of field intents -/

/-- What the intent `n` a group `is` amounts to keeps of it. -/
structure Normalized (is : List FieldIntent) (n : FieldIntent) : Prop where
  target : ∀ i ∈ is, n.info = i.info
  sample : ∃ i ∈ is, n.entityRef = i.entityRef ∧ n.entityType = i.entityType
  /-- A replacement is kept as it is. -/
  replaced : ∀ i ∈ is, i.kind = .setEffectiveValue ∨ i.kind = .setExactMembers →
    (n.kind = .setEffectiveValue ∨ n.kind = .setExactMembers) ∧ n.values = i.values
  cleared : ∀ i ∈ is, i.kind = .withoutField →
    n.kind = .setEffectiveValue ∨ n.kind = .setExactMembers ∨ n.kind = .withoutField
  ensured : ∀ i ∈ is, i.kind = .ensureMember →
    (n.kind = .setExactMembers ∨ n.kind = .ensureMember) ∧ ∀ v ∈ i.values, v ∈ n.values
  refused : ∀ i ∈ is, i.kind = .withoutValue → ∀ v ∈ i.values,
    if n.kind = .withoutValue then v ∈ n.values else v ∉ n.values
  /-- Where the values come from. -/
  declared : n.kind ≠ .withoutValue → ∀ v ∈ n.values, ∃ i ∈ is,
    (i.kind = .setEffectiveValue ∨ i.kind = .setExactMembers ∨ i.kind = .ensureMember) ∧ v ∈ i.values
  replaces : n.kind = .setEffectiveValue ∨ n.kind = .setExactMembers ∨ n.kind = .withoutField →
    ∃ i ∈ is, i.kind = .setEffectiveValue ∨ i.kind = .setExactMembers ∨ i.kind = .withoutField
  ensures : n.kind = .ensureMember → ∃ i ∈ is, i.kind = .ensureMember
  removes : n.kind = .withoutValue → (∀ i ∈ is, i.kind = .withoutValue) ∧
    ∀ v ∈ n.values, ∃ i ∈ is, v ∈ i.values
  nothing : n.kind = .withoutField → n.values = []
  one : n.kind = .setEffectiveValue → ∃ v, n.values = [v]

theorem mem_valuesOf {is : List FieldIntent} {kind : FieldKind} {v : ScenarioValue} :
    v ∈ valuesOf is kind ↔ ∃ i ∈ is, i.kind = kind ∧ v ∈ i.values := by
  unfold valuesOf
  simp only [List.mem_flatMap, List.mem_filter, decide_eq_true_eq, and_assoc]

theorem normalized_of_ok {host : Host} {schema : Schema} {is : List FieldIntent} {n : FieldIntent}
    (hvalid : ∀ i ∈ is, i.Valid schema) (h : normalizeFieldGroup host is = .ok n) :
    Normalized is n := by
  cases is with
  | nil => cases h
  | cons sample rest =>
    unfold normalizeFieldGroup at h
    obtain ⟨hinfo, h⟩ := bind_unit_ok_iff.mp h
    generalize his : sample :: rest = is at h hvalid hinfo
    have hmem : sample ∈ is := his ▸ List.mem_cons_self
    have hsame : ∀ i ∈ is, sample.info = i.info := by
      intro i hi
      exact (of_decide_eq_true (List.all_eq_true.mp (demand_ok_iff.mp hinfo) i hi)).symm
    -- one field is single or multi, not both
    have hcard : ∀ i ∈ is, ∀ j ∈ is, i.kind = .setEffectiveValue →
        ¬(j.kind = .ensureMember ∨ j.kind = .setExactMembers) := by
      intro i hi j hj hik hjk
      have hs := (hvalid i hi).single hik
      have hm := (hvalid j hj).multi hjk
      rw [← hsame i hi] at hs
      rw [← hsame j hj, hs] at hm
      simp at hm
    have hrefused : ∀ {vs : List ScenarioValue} {i : FieldIntent}, i ∈ is →
        i.kind = .withoutValue → (valuesOf is .withoutValue).all (· ∉ vs) = true →
          ∀ v ∈ i.values, v ∉ vs := by
      intro vs i hi hik hall v hv
      exact of_decide_eq_true (List.all_eq_true.mp hall v (mem_valuesOf.mpr ⟨i, hi, hik, hv⟩))
    dsimp only at h
    split at h
    next exact others hexacts =>
      -- an exact set
      obtain ⟨hothers, h⟩ := bind_unit_ok_iff.mp h
      obtain ⟨hensured, h⟩ := bind_unit_ok_iff.mp h
      obtain ⟨hrefuse, h⟩ := bind_unit_ok_iff.mp h
      cases h
      have hexact : exact ∈ is ∧ exact.kind = .setExactMembers := by
        have hin : exact ∈ is.filter (·.kind = .setExactMembers) := hexacts ▸ List.mem_cons_self
        simpa using List.mem_filter.mp hin
      have hvalues : ∀ i ∈ is, i.kind = .setExactMembers → exact.values = i.values := by
        intro i hi hik
        have hin : i ∈ exact :: others := hexacts ▸ List.mem_filter.mpr ⟨hi, decide_eq_true hik⟩
        rcases List.mem_cons.mp hin with rfl | hin
        · rfl
        · exact (of_decide_eq_true (List.all_eq_true.mp (demand_ok_iff.mp hothers) i hin)).symm
      constructor
      · exact hsame
      · exact ⟨sample, hmem, rfl, rfl⟩
      · intro i hi hik
        rcases hik with hik | hik
        · exact absurd (.inr hexact.2) (hcard i hi exact hexact.1 hik)
        · exact ⟨.inr rfl, hvalues i hi hik⟩
      · exact fun _ _ _ => .inr (.inl rfl)
      · intro i hi hik
        refine ⟨.inl rfl, ?_⟩
        intro v hv
        exact of_decide_eq_true (List.all_eq_true.mp (demand_ok_iff.mp hensured) v
          (mem_valuesOf.mpr ⟨i, hi, hik, hv⟩))
      · intro i hi hik v hv
        exact hrefused hi hik (demand_ok_iff.mp hrefuse) v hv
      · exact fun _ v hv => ⟨exact, hexact.1, .inr (.inl hexact.2), hv⟩
      · exact fun _ => ⟨exact, hexact.1, .inr (.inl hexact.2)⟩
      · intro hk
        cases hk
      · intro hk
        cases hk
      · intro hk
        cases hk
      · intro hk
        cases hk
    next first others hexacts hsets =>
      -- a single value
      obtain ⟨hothers, h⟩ := bind_unit_ok_iff.mp h
      obtain ⟨hrefuse, h⟩ := bind_unit_ok_iff.mp h
      cases h
      have hfirst : first ∈ is ∧ first.kind = .setEffectiveValue := by
        have hin : first ∈ is.filter (·.kind = .setEffectiveValue) := hsets ▸ List.mem_cons_self
        simpa using List.mem_filter.mp hin
      have htake : ∀ i ∈ is, i.kind = .setEffectiveValue → i.values.take 1 = i.values := by
        intro i hi hik
        obtain ⟨v, hv⟩ := (hvalid i hi).one (.inl hik)
        rw [hv]
        rfl
      have hvalues : ∀ i ∈ is, i.kind = .setEffectiveValue → first.values.take 1 = i.values := by
        intro i hi hik
        have hin : i ∈ first :: others := hsets ▸ List.mem_filter.mpr ⟨hi, decide_eq_true hik⟩
        rcases List.mem_cons.mp hin with rfl | hin
        · exact htake i hi hik
        · rw [← htake i hi hik]
          exact (of_decide_eq_true (List.all_eq_true.mp (demand_ok_iff.mp hothers) i hin)).symm
      constructor
      · exact hsame
      · exact ⟨sample, hmem, rfl, rfl⟩
      · intro i hi hik
        rcases hik with hik | hik
        · exact ⟨.inl rfl, hvalues i hi hik⟩
        · exact absurd (.inr hik) (hcard first hfirst.1 i hi hfirst.2)
      · exact fun _ _ _ => .inl rfl
      · intro i hi hik
        exact absurd (.inl hik) (hcard first hfirst.1 i hi hfirst.2)
      · intro i hi hik v hv
        exact hrefused hi hik (demand_ok_iff.mp hrefuse) v hv
      · exact fun _ v hv => ⟨first, hfirst.1, .inl hfirst.2, List.mem_of_mem_take hv⟩
      · exact fun _ => ⟨first, hfirst.1, .inl hfirst.2⟩
      · intro hk
        cases hk
      · intro hk
        cases hk
      · intro hk
        cases hk
      · intro _
        rw [FieldIntent.merged, htake first hfirst.1 hfirst.2]
        exact (hvalid first hfirst.1).one (.inl hfirst.2)
    next hexacts hsets =>
      have hnone : ∀ i ∈ is, ¬(i.kind = .setEffectiveValue ∨ i.kind = .setExactMembers) := by
        rintro i hi (hik | hik)
        · have hin : i ∈ is.filter (·.kind = .setEffectiveValue) :=
            List.mem_filter.mpr ⟨hi, decide_eq_true hik⟩
          rw [hsets] at hin
          cases hin
        · have hin : i ∈ is.filter (·.kind = .setExactMembers) :=
            List.mem_filter.mpr ⟨hi, decide_eq_true hik⟩
          rw [hexacts] at hin
          cases hin
      have hany : ∀ kind, is.any (·.kind = kind) = true ↔ ∃ i ∈ is, i.kind = kind := by
        intro kind
        simp
      have hensure : ∀ i ∈ is, i.kind = .ensureMember → ∀ v ∈ i.values,
          v ∈ distinctValues host (valuesOf is .ensureMember) := by
        intro i hi hik v hv
        exact mem_distinctValues.mpr (mem_valuesOf.mpr ⟨i, hi, hik, hv⟩)
      have hdeclared : ∀ v ∈ distinctValues host (valuesOf is .ensureMember), ∃ i ∈ is,
          (i.kind = .setEffectiveValue ∨ i.kind = .setExactMembers ∨ i.kind = .ensureMember) ∧
            v ∈ i.values := by
        intro v hv
        obtain ⟨i, hi, hik, hv⟩ := mem_valuesOf.mp (mem_distinctValues.mp hv)
        exact ⟨i, hi, .inr (.inr hik), hv⟩
      split at h
      next hboth =>
        obtain ⟨hrefuse, h⟩ := bind_unit_ok_iff.mp h
        cases h
        rw [Bool.and_eq_true, hany, hany] at hboth
        constructor
        · exact hsame
        · exact ⟨sample, hmem, rfl, rfl⟩
        · exact fun i hi hik => absurd hik (hnone i hi)
        · exact fun _ _ _ => .inr (.inl rfl)
        · exact fun i hi hik => ⟨.inl rfl, hensure i hi hik⟩
        · intro i hi hik v hv
          show v ∉ distinctValues host _
          rw [mem_distinctValues]
          exact hrefused hi hik (demand_ok_iff.mp hrefuse) v hv
        · exact fun _ => hdeclared
        · obtain ⟨⟨i, hi, hik⟩, _⟩ := hboth
          exact fun _ => ⟨i, hi, .inr (.inr hik)⟩
        · intro hk
          cases hk
        · intro hk
          cases hk
        · intro hk
          cases hk
        · intro hk
          cases hk
      next hboth =>
        split at h
        next hfield =>
          cases h
          have hnoEnsure : ∀ i ∈ is, i.kind ≠ .ensureMember := by
            intro i hi hik
            exact hboth (Bool.and_eq_true_iff.mpr ⟨hfield, (hany _).mpr ⟨i, hi, hik⟩⟩)
          constructor
          · exact hsame
          · exact ⟨sample, hmem, rfl, rfl⟩
          · exact fun i hi hik => absurd hik (hnone i hi)
          · exact fun _ _ _ => .inr (.inr rfl)
          · exact fun i hi hik => absurd hik (hnoEnsure i hi)
          · exact fun _ _ _ v _ hv => by cases hv
          · exact fun _ v hv => by cases hv
          · obtain ⟨i, hi, hik⟩ := (hany _).mp hfield
            exact fun _ => ⟨i, hi, .inr (.inr hik)⟩
          · intro hk
            cases hk
          · intro hk
            cases hk
          · exact fun _ => rfl
          · intro hk
            cases hk
        next hfield =>
          have hnoField : ∀ i ∈ is, i.kind ≠ .withoutField :=
            fun i hi hik => hfield ((hany _).mpr ⟨i, hi, hik⟩)
          split at h
          next hensures =>
            obtain ⟨hrefuse, h⟩ := bind_unit_ok_iff.mp h
            cases h
            constructor
            · exact hsame
            · exact ⟨sample, hmem, rfl, rfl⟩
            · exact fun i hi hik => absurd hik (hnone i hi)
            · exact fun i hi hik => absurd hik (hnoField i hi)
            · exact fun i hi hik => ⟨.inr rfl, hensure i hi hik⟩
            · intro i hi hik v hv
              show v ∉ distinctValues host _
              rw [mem_distinctValues]
              exact hrefused hi hik (demand_ok_iff.mp hrefuse) v hv
            · exact fun _ => hdeclared
            · rintro (hk | hk | hk) <;> cases hk
            · exact fun _ => (hany _).mp hensures
            · intro hk
              cases hk
            · intro hk
              cases hk
            · intro hk
              cases hk
          next hensures =>
            cases h
            have hall : ∀ i ∈ is, i.kind = .withoutValue := by
              intro i hi
              cases hik : i.kind with
              | setEffectiveValue => exact absurd (.inl hik) (hnone i hi)
              | setExactMembers => exact absurd (.inr hik) (hnone i hi)
              | withoutField => exact absurd hik (hnoField i hi)
              | ensureMember => exact absurd ((hany _).mpr ⟨i, hi, hik⟩) hensures
              | withoutValue => rfl
            have hne : ∀ i ∈ is, ∀ kind, kind ≠ .withoutValue → i.kind ≠ kind :=
              fun i hi kind hk hik => hk (hik ▸ hall i hi)
            constructor
            · exact hsame
            · exact ⟨sample, hmem, rfl, rfl⟩
            · exact fun i hi hik => absurd hik (hnone i hi)
            · exact fun i hi hik => absurd hik (hne i hi _ (by decide))
            · exact fun i hi hik => absurd hik (hne i hi _ (by decide))
            · intro i hi hik v hv
              exact mem_distinctValues.mpr (mem_valuesOf.mpr ⟨i, hi, hik, hv⟩)
            · exact fun hk => absurd rfl hk
            · rintro (hk | hk | hk) <;> cases hk
            · intro hk
              cases hk
            · intro _
              refine ⟨hall, ?_⟩
              intro v hv
              obtain ⟨i, hi, _, hv⟩ := mem_valuesOf.mp (mem_distinctValues.mp hv)
              exact ⟨i, hi, hv⟩
            · intro hk
              cases hk
            · intro hk
              cases hk

/-! ## Groups of the other intents -/

theorem normalizeRelationGroup_ok {host : Host} {is ns : List RelationIntent} {p : String}
    (hp : ∀ i ∈ is, i.info.predId = p) (h : normalizeRelationGroup host is = .ok ns) :
    (∀ n ∈ ns, n.info.predId = p) ∧
      (∀ vs, (∃ n ∈ ns, n.kind = .ensure ∧ n.values = vs) ↔
        ∃ i ∈ is, i.kind = .ensure ∧ i.values = vs) ∧
      ((∃ n ∈ ns, n.kind = .without) ↔ ∃ i ∈ is, i.kind = .without) ∧
      (∀ m ∈ ns, ∀ n ∈ ns, m.kind = .ensure → n.kind ≠ .without) := by
  cases is with
  | nil =>
    cases h
    simp
  | cons sample rest =>
    have hsample : sample.info.predId = p := hp sample List.mem_cons_self
    unfold normalizeRelationGroup at h
    dsimp only at h
    generalize sample :: rest = is at h hp
    -- a relation that is emptied may not be ensured a tuple as well
    by_cases hwithout : is.any (·.kind = .without) = true
    · rw [if_pos hwithout] at h
      obtain ⟨hempty, h⟩ := bind_unit_ok_iff.mp h
      cases h
      have hnone : ∀ i ∈ is, i.kind ≠ .ensure := by
        have hnil := demand_ok_iff.mp hempty
        rw [List.isEmpty_iff, List.filter_eq_nil_iff] at hnil
        simpa using hnil
      have hsome : ∃ i ∈ is, i.kind = .without := by simpa using hwithout
      refine ⟨by simp [hsample], ?_, by simp [hsome], by simp⟩
      intro vs
      simp only [List.mem_singleton, exists_eq_left, reduceCtorEq, false_and, false_iff]
      rintro ⟨i, hi, hik, _⟩
      exact hnone i hi hik
    · rw [if_neg hwithout] at h
      cases h
      have hnone : ∀ i ∈ is, i.kind ≠ .without := by
        intro i hi hik
        exact hwithout (List.any_eq_true.mpr ⟨i, hi, decide_eq_true hik⟩)
      have hvalues : ∀ vs, vs ∈ ((is.filter (·.kind = .ensure)).map (·.values)).dedup.insertionSort
          (fun a b => a.map (·.valueDigest host) ≤ b.map (·.valueDigest host)) ↔
            ∃ i ∈ is, i.kind = .ensure ∧ i.values = vs := by
        intro vs
        rw [List.mem_insertionSort, List.mem_dedup, List.mem_map]
        simp only [List.mem_filter, decide_eq_true_eq, and_assoc]
      refine ⟨?_, ?_, ?_, ?_⟩
      · intro n hn
        obtain ⟨vs, _, rfl⟩ := List.mem_map.mp hn
        exact hsample
      · intro vs
        rw [← hvalues vs]
        constructor
        · rintro ⟨n, hn, _, rfl⟩
          obtain ⟨vs, hvs, rfl⟩ := List.mem_map.mp hn
          exact hvs
        · intro hvs
          exact ⟨_, List.mem_map.mpr ⟨vs, hvs, rfl⟩, rfl, rfl⟩
      · constructor
        · rintro ⟨n, hn, hnk⟩
          obtain ⟨vs, _, rfl⟩ := List.mem_map.mp hn
          cases hnk
        · rintro ⟨i, hi, hik⟩
          exact absurd hik (hnone i hi)
      · intro m _ n hn _ hnk
        obtain ⟨vs, _, rfl⟩ := List.mem_map.mp hn
        cases hnk

/-- The entities to create of a group: those of the first intent. -/
theorem mergeCreates_ok {is : List CreateIntent} {n : CreateIntent} (h : mergeCreates is = .ok n) :
    (∃ i, is.head? = some i ∧ n.entityRef = i.entityRef ∧ n.entityType = i.entityType ∧
      n.identityValues = i.identityValues) ∧ ∀ i ∈ is, n.entityType = i.entityType := by
  cases is with
  | nil => cases h
  | cons first rest =>
    unfold mergeCreates at h
    obtain ⟨htypes, h⟩ := bind_unit_ok_iff.mp h
    cases h
    refine ⟨⟨first, rfl, rfl, rfl, rfl⟩, ?_⟩
    intro i hi
    exact (of_decide_eq_true (List.all_eq_true.mp (demand_ok_iff.mp htypes) i hi)).symm

theorem normalizeEntityGroup_ok {is : List EntityIntent} {n : EntityIntent}
    (h : normalizeEntityGroup is = .ok n) :
    ∃ i ∈ is, n.entityRef = i.entityRef ∧ n.entityType = i.entityType := by
  cases is with
  | nil => cases h
  | cons first rest =>
    unfold normalizeEntityGroup at h
    obtain ⟨_, h⟩ := bind_unit_ok_iff.mp h
    cases h
    exact ⟨first, List.mem_cons_self, rfl, rfl⟩

/-! ## The plan -/

/-- An intent is the first of those that create an entity. -/
def Leads (intents : List Intent) (i : CreateIntent) : Prop :=
  ((intents.filterMap Intent.create?).filter (·.entityRef = i.entityRef)).head? = some i

theorem leads_of_head {intents : List Intent} {e : String} {i : CreateIntent}
    (h : ((intents.filterMap Intent.create?).filter (·.entityRef = e)).head? = some i) :
    Leads intents i := by
  have he := of_decide_eq_true (List.mem_filter.mp (List.mem_of_mem_head? h)).2
  unfold Leads
  rw [he]
  exact h

/-- What the plan of a scenario has to do with the intents of its operations. -/
structure Planned (intents : List Intent) (plan : Plan) : Prop where
  assertions : ∀ w, (∃ i ∈ plan.assertions, i.assertionId = w) ↔
    ∃ i, .assertion i ∈ intents ∧ i.assertionId = w
  entities : ∀ e, (∃ i ∈ plan.entities, i.entityRef = e) ↔
    ∃ i, .entity i ∈ intents ∧ i.entityRef = e
  ensures : ∀ p vs, (∃ i ∈ plan.relations, i.kind = .ensure ∧ i.info.predId = p ∧ i.values = vs) ↔
    ∃ i, .relation i ∈ intents ∧ i.kind = .ensure ∧ i.info.predId = p ∧ i.values = vs
  withouts : ∀ p, (∃ i ∈ plan.relations, i.kind = .without ∧ i.info.predId = p) ↔
    ∃ i, .relation i ∈ intents ∧ i.kind = .without ∧ i.info.predId = p
  apart : ∀ i ∈ plan.relations, ∀ j ∈ plan.relations, i.kind = .ensure → j.kind = .without →
    i.info.predId ≠ j.info.predId
  created : ∀ n ∈ plan.creates, ∃ i, Leads intents i ∧ n.entityRef = i.entityRef ∧
    n.entityType = i.entityType ∧ n.identityValues = i.identityValues
  creates : ∀ i, .create i ∈ intents → ∃ n ∈ plan.creates, ∃ j, Leads intents j ∧
    n.entityRef = j.entityRef ∧ j.entityRef = i.entityRef ∧ n.entityType = i.entityType ∧
      n.identityValues = j.identityValues
  fields : ∀ n ∈ plan.fields, ∃ is, Normalized is n ∧ ∀ i, i ∈ is ↔
    .field i ∈ intents ∧ i.entityRef = n.entityRef ∧ i.info.predId = n.info.predId
  fieldOf : ∀ i, .field i ∈ intents → ∃ n ∈ plan.fields,
    i.entityRef = n.entityRef ∧ i.info.predId = n.info.predId
  distinct : plan.fields.Pairwise fun m n =>
    ¬(m.entityRef = n.entityRef ∧ m.info.predId = n.info.predId)

theorem mem_sortedGroups {α : Type} {key : α → String} {as : List α} {k : String} {g : List α} :
    (k, g) ∈ sortedGroups key as ↔
      g = as.filter (fun a => key a = k) ∧ ∃ a ∈ as, key a = k := by
  unfold sortedGroups
  rw [mem_sortOn, Buckets.mem_ofList, List.map_id]

theorem mem_field? {intents : List Intent} {i : FieldIntent} :
    i ∈ intents.filterMap Intent.field? ↔ .field i ∈ intents := by
  rw [List.mem_filterMap]
  constructor
  · rintro ⟨intent, hmem, h⟩
    cases intent <;> cases h
    exact hmem
  · exact fun h => ⟨_, h, rfl⟩

theorem mem_relation? {intents : List Intent} {i : RelationIntent} :
    i ∈ intents.filterMap Intent.relation? ↔ .relation i ∈ intents := by
  rw [List.mem_filterMap]
  constructor
  · rintro ⟨intent, hmem, h⟩
    cases intent <;> cases h
    exact hmem
  · exact fun h => ⟨_, h, rfl⟩

theorem mem_create? {intents : List Intent} {i : CreateIntent} :
    i ∈ intents.filterMap Intent.create? ↔ .create i ∈ intents := by
  rw [List.mem_filterMap]
  constructor
  · rintro ⟨intent, hmem, h⟩
    cases intent <;> cases h
    exact hmem
  · exact fun h => ⟨_, h, rfl⟩

theorem mem_entity? {intents : List Intent} {i : EntityIntent} :
    i ∈ intents.filterMap Intent.entity? ↔ .entity i ∈ intents := by
  rw [List.mem_filterMap]
  constructor
  · rintro ⟨intent, hmem, h⟩
    cases intent <;> cases h
    exact hmem
  · exact fun h => ⟨_, h, rfl⟩

theorem mem_assertion? {intents : List Intent} {i : AssertionIntent} :
    i ∈ intents.filterMap Intent.assertion? ↔ .assertion i ∈ intents := by
  rw [List.mem_filterMap]
  constructor
  · rintro ⟨intent, hmem, h⟩
    cases intent <;> cases h
    exact hmem
  · exact fun h => ⟨_, h, rfl⟩

/-- The key a field intent is grouped by. -/
def FieldIntent.key (i : FieldIntent) : String × String := (i.entityRef, i.info.predId)

theorem mem_fieldGroups {is : List FieldIntent} {k : String × String} {g : List FieldIntent} :
    (k, g) ∈ fieldGroups is ↔ g = is.filter (fun i => i.key = k) ∧ ∃ i ∈ is, i.key = k := by
  unfold fieldGroups
  rw [List.mem_insertionSort, Buckets.mem_ofList, List.map_id]
  rfl

/-- The groups of the field intents have different keys. -/
theorem nodup_fieldGroups (is : List FieldIntent) : ((fieldGroups is).map Prod.fst).Nodup := by
  unfold fieldGroups
  rw [((List.perm_insertionSort _ _).map Prod.fst).nodup_iff]
  exact Buckets.nodup_keys_ofList _ _ is

/-- The intents of groups of one key each have the keys of the groups. -/
theorem keys_of_groups {host : Host} {schema : Schema}
    {gs : List ((String × String) × List FieldIntent)} {ns : List FieldIntent}
    (hgroups : ∀ g ∈ gs, ∀ i ∈ g.2, i.Valid schema ∧ i.key = g.1)
    (h : mapOk (fun g => normalizeFieldGroup host g.2) gs = .ok ns) :
    ns.map FieldIntent.key = gs.map Prod.fst := by
  have hall := mapOk_ok_iff.mp h
  clear h
  induction hall with
  | nil => rfl
  | @cons g n gs ns hok _ ih =>
    rw [List.forall_mem_cons] at hgroups
    rw [List.map_cons, List.map_cons, ih hgroups.2]
    congr 1
    have hnormal := normalized_of_ok (fun i hi => (hgroups.1 i hi).1) hok
    obtain ⟨j, hj, href, _⟩ := hnormal.sample
    rw [← (hgroups.1 j hj).2, FieldIntent.key, FieldIntent.key, href, hnormal.target j hj]

theorem planned_of_normalize {host : Host} {schema : Schema} {intents : List Intent} {plan : Plan}
    (hvalid : ∀ i, .field i ∈ intents → i.Valid schema) (h : normalize host intents = .ok plan) :
    Planned intents plan := by
  unfold normalize at h
  obtain ⟨creates, hcreates, h⟩ := bind_ok_iff.mp h
  obtain ⟨fields, hfields, h⟩ := bind_ok_iff.mp h
  obtain ⟨relations, hrelations, h⟩ := bind_ok_iff.mp h
  obtain ⟨entities, hentities, h⟩ := bind_ok_iff.mp h
  cases h
  -- what the groups of the relation intents were normalized to
  have hgroup : ∀ i, .relation i ∈ intents → ∃ ns,
      normalizeRelationGroup host ((intents.filterMap Intent.relation?).filter
          fun j => j.info.predId = i.info.predId) = .ok ns ∧ ∀ n ∈ ns, n ∈ relations := by
    intro i hi
    have hmem : (i.info.predId, (intents.filterMap Intent.relation?).filter
        fun j => j.info.predId = i.info.predId) ∈
          sortedGroups (·.info.predId) (intents.filterMap Intent.relation?) :=
      mem_sortedGroups.mpr ⟨rfl, i, mem_relation?.mpr hi, rfl⟩
    obtain ⟨ns, hns⟩ := ok_of_collect_ok hrelations _ hmem
    exact ⟨ns, hns, fun n hn => (mem_of_collect_ok hrelations).mpr ⟨_, hmem, ns, hns, hn⟩⟩
  have hsource : ∀ n ∈ relations, ∃ p is ns, n ∈ ns ∧ normalizeRelationGroup host is = .ok ns ∧
      (∀ i ∈ is, i.info.predId = p) ∧ ∀ i, i ∈ is ↔ .relation i ∈ intents ∧ i.info.predId = p := by
    intro n hn
    obtain ⟨⟨p, is⟩, hmem, ns, hns, hn⟩ := (mem_of_collect_ok hrelations).mp hn
    obtain ⟨rfl, _⟩ := mem_sortedGroups.mp hmem
    have hiff : ∀ i, i ∈ (intents.filterMap Intent.relation?).filter (fun j => j.info.predId = p) ↔
        .relation i ∈ intents ∧ i.info.predId = p := by
      intro i
      rw [List.mem_filter, mem_relation?, decide_eq_true_eq]
    exact ⟨p, _, ns, hn, hns, fun i hi => ((hiff i).mp hi).2, hiff⟩
  constructor
  · intro w
    constructor
    · rintro ⟨n, hn, rfl⟩
      obtain ⟨⟨w, is⟩, hmem, rfl⟩ := List.mem_map.mp hn
      obtain ⟨_, i, hi, hw⟩ := mem_sortedGroups.mp hmem
      exact ⟨i, mem_assertion?.mp hi, hw⟩
    · rintro ⟨i, hi, rfl⟩
      exact ⟨_, List.mem_map.mpr ⟨_, mem_sortedGroups.mpr ⟨rfl, i, mem_assertion?.mpr hi, rfl⟩, rfl⟩,
        rfl⟩
  · intro e
    constructor
    · rintro ⟨n, hn, rfl⟩
      rw [List.mem_insertionSort] at hn
      obtain ⟨⟨e, is⟩, hmem, hok⟩ := mem_of_mapOk hentities hn
      obtain ⟨rfl, _⟩ := mem_sortedGroups.mp hmem
      obtain ⟨i, hi, href, _⟩ := normalizeEntityGroup_ok hok
      exact ⟨i, mem_entity?.mp (List.mem_filter.mp hi).1, href.symm⟩
    · rintro ⟨i, hi, rfl⟩
      obtain ⟨n, hn, hok⟩ := image_of_mapOk hentities
        (mem_sortedGroups.mpr ⟨rfl, i, mem_entity?.mpr hi, rfl⟩)
      obtain ⟨j, hj, href, _⟩ := normalizeEntityGroup_ok hok
      have hj := of_decide_eq_true (List.mem_filter.mp hj).2
      exact ⟨n, (List.mem_insertionSort _).mpr hn, href.trans hj⟩
  · intro p vs
    constructor
    · rintro ⟨n, hn, hnk, rfl, rfl⟩
      obtain ⟨p, is, ns, hmem, hns, hp, hiff⟩ := hsource n hn
      obtain ⟨hpred, hensures, _, _⟩ := normalizeRelationGroup_ok hp hns
      obtain ⟨i, hi, hik, hvs⟩ := (hensures n.values).mp ⟨n, hmem, hnk, rfl⟩
      exact ⟨i, ((hiff i).mp hi).1, hik, (hp i hi).trans (hpred n hmem).symm, hvs⟩
    · rintro ⟨i, hi, hik, rfl, rfl⟩
      obtain ⟨ns, hns, hin⟩ := hgroup i hi
      obtain ⟨hpred, hensures, _, _⟩ := normalizeRelationGroup_ok
        (fun j hj => of_decide_eq_true (List.mem_filter.mp hj).2) hns
      obtain ⟨n, hn, hnk, hvs⟩ := (hensures i.values).mpr ⟨i, List.mem_filter.mpr
        ⟨mem_relation?.mpr hi, decide_eq_true rfl⟩, hik, rfl⟩
      exact ⟨n, hin n hn, hnk, hpred n hn, hvs⟩
  · intro p
    constructor
    · rintro ⟨n, hn, hnk, rfl⟩
      obtain ⟨p, is, ns, hmem, hns, hp, hiff⟩ := hsource n hn
      obtain ⟨hpred, _, hwithouts, _⟩ := normalizeRelationGroup_ok hp hns
      obtain ⟨i, hi, hik⟩ := hwithouts.mp ⟨n, hmem, hnk⟩
      exact ⟨i, ((hiff i).mp hi).1, hik, (hp i hi).trans (hpred n hmem).symm⟩
    · rintro ⟨i, hi, hik, rfl⟩
      obtain ⟨ns, hns, hin⟩ := hgroup i hi
      obtain ⟨hpred, _, hwithouts, _⟩ := normalizeRelationGroup_ok
        (fun j hj => of_decide_eq_true (List.mem_filter.mp hj).2) hns
      obtain ⟨n, hn, hnk⟩ := hwithouts.mpr ⟨i, List.mem_filter.mpr
        ⟨mem_relation?.mpr hi, decide_eq_true rfl⟩, hik⟩
      exact ⟨n, hin n hn, hnk, hpred n hn⟩
  · -- the intents on one relation come from one group
    intro m hm n hn hmk hnk hsame
    obtain ⟨p, is, ns, hmem, hns, hp, hiff⟩ := hsource m hm
    obtain ⟨q, is', ns', hmem', hns', hq, hiff'⟩ := hsource n hn
    obtain ⟨hpred, hensures, _, _⟩ := normalizeRelationGroup_ok hp hns
    obtain ⟨hpred', _, hwithouts, hapart⟩ := normalizeRelationGroup_ok hq hns'
    have hpq : p = q := (hpred m hmem).symm.trans (hsame.trans (hpred' n hmem'))
    subst hpq
    obtain ⟨i, hi, hik, _⟩ := (hensures m.values).mp ⟨m, hmem, hmk, rfl⟩
    obtain ⟨_, hensures', _, _⟩ := normalizeRelationGroup_ok hq hns'
    obtain ⟨m', hm', hmk', _⟩ := (hensures' i.values).mpr
      ⟨i, (hiff' i).mpr ((hiff i).mp hi), hik, rfl⟩
    exact hapart m' hm' n hmem' hmk' hnk
  · intro n hn
    rw [List.mem_insertionSort] at hn
    obtain ⟨⟨e, is⟩, hmem, hok⟩ := mem_of_mapOk hcreates hn
    obtain ⟨hg, _⟩ := Buckets.mem_ofList.mp hmem
    rw [List.map_id] at hg
    subst hg
    obtain ⟨⟨i, hi, hsame⟩, _⟩ := mergeCreates_ok hok
    exact ⟨i, leads_of_head hi, hsame⟩
  · intro i hi
    have hmem : (i.entityRef, (intents.filterMap Intent.create?).filter
        fun j => j.entityRef = i.entityRef) ∈
          Buckets.ofList (·.entityRef) id (intents.filterMap Intent.create?) := by
      rw [Buckets.mem_ofList, List.map_id]
      exact ⟨rfl, i, mem_create?.mpr hi, rfl⟩
    obtain ⟨n, hn, hok⟩ := image_of_mapOk hcreates hmem
    obtain ⟨⟨j, hj, href, _, hvalues⟩, htypes⟩ := mergeCreates_ok hok
    have hjref := of_decide_eq_true (List.mem_filter.mp (List.mem_of_mem_head? hj)).2
    exact ⟨n, (List.mem_insertionSort _).mpr hn, j, leads_of_head hj, href, hjref,
      htypes i (List.mem_filter.mpr ⟨mem_create?.mpr hi, decide_eq_true rfl⟩), hvalues⟩
  · intro n hn
    obtain ⟨⟨k, is⟩, hmem, hok⟩ := mem_of_mapOk hfields hn
    obtain ⟨rfl, _⟩ := mem_fieldGroups.mp hmem
    have hnormal := normalized_of_ok
      (fun i hi => hvalid i (mem_field?.mp (List.mem_filter.mp hi).1)) hok
    refine ⟨_, hnormal, ?_⟩
    obtain ⟨i₀, hi₀, href₀, _⟩ := hnormal.sample
    have hkey₀ : i₀.key = k := of_decide_eq_true (List.mem_filter.mp hi₀).2
    have hk : k = (n.entityRef, n.info.predId) := by
      rw [← hkey₀, FieldIntent.key, href₀, hnormal.target i₀ hi₀]
    intro i
    rw [List.mem_filter, mem_field?, decide_eq_true_eq, hk, FieldIntent.key, Prod.mk.injEq]
  · intro i hi
    obtain ⟨n, hn, hok⟩ := image_of_mapOk hfields
      (mem_fieldGroups.mpr ⟨rfl, i, mem_field?.mpr hi, rfl⟩)
    have hnormal := normalized_of_ok
      (fun i hi => hvalid i (mem_field?.mp (List.mem_filter.mp hi).1)) hok
    obtain ⟨j, hj, href, _⟩ := hnormal.sample
    have hkey : j.key = i.key := of_decide_eq_true (List.mem_filter.mp hj).2
    rw [FieldIntent.key, FieldIntent.key, Prod.mk.injEq] at hkey
    exact ⟨n, hn, hkey.1.symm.trans href.symm, by rw [hnormal.target j hj, hkey.2]⟩
  · -- every group has its own key, and its intent has that key
    have hkeys : fields.map FieldIntent.key =
        (fieldGroups (intents.filterMap Intent.field?)).map Prod.fst := by
      have hgroups : ∀ g ∈ fieldGroups (intents.filterMap Intent.field?), ∀ i ∈ g.2,
          i.Valid schema ∧ i.key = g.1 := by
        intro g hg i hi
        obtain ⟨hsame, _⟩ := mem_fieldGroups.mp hg
        rw [hsame, List.mem_filter, mem_field?, decide_eq_true_eq] at hi
        exact ⟨hvalid i hi.1, hi.2⟩
      exact keys_of_groups hgroups hfields
    have hnodup : (fields.map FieldIntent.key).Nodup := hkeys ▸ nodup_fieldGroups _
    rw [List.Nodup, List.pairwise_map] at hnodup
    exact hnodup.imp fun hne hsame => hne (Prod.ext hsame.1 hsame.2)

end FactGraph.Scenario
