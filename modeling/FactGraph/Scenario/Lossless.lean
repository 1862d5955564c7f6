import FactGraph.Rules.StoredCells
import FactGraph.Scenario.Satisfied
import FactGraph.View.Cells

/-!
# Worlds as relations

`effective_world_to_relation_v1` of `application/scenario_v1_runtime.py` and the baseline world it is
applied to: a view becomes a world, and the world a view again.

The rows of a view hold what the claims store. A byte string is stored as its base64 text, and the
typing of a row takes bytes where the schema says bytes; so a view with a byte string has no world.
Every other cell is typed as what it is and comes back as it was.

The facts of a world are sorted by their digests, so the rows come back in another order. A where
clause has the same answer on both, unless an aggregate of it reads the order of its matches. One over
stored cells does not, for a view has no floats; a sum of means does.
-/

namespace FactGraph.Scenario

open Protocol Store Check Entity

/-! ## The baseline world -/

/-- The baseline world of `resolve_scenario_v1`. -/
def baselineWorld (host : Host) (schema : Schema) (baseline : Relation)
    (baseViewDigest admissibilityDigest : String) : Except Fault World := do
  shaToken baseViewDigest "base_view_digest"
  shaToken admissibilityDigest "admissibility_digest"
  let r ← freezeRelation host baseline
  demand (!r.entries.isEmpty) "baseline relation must be non-empty" "SCENARIO_RELATION_EMPTY"
  each (fun p => (predicateDomains host schema p).map fun _ => ()) r.predicates
  let facts ← typedFacts host schema r []
  effectiveWorld host schema.digest baseViewDigest admissibilityDigest r.predicates facts [] []

/-! ## The relation of a world -/

/-- `closure_digest`. -/
def closureDigest (host : Host) (closure : List ClosureTarget) : String :=
  host.token "scenario_closure_scope_v1"
    (.obj [("targets", .arr (closure.map fun t => text (t.digest host)))])

namespace World

/-- `relation_digest`. -/
def relationDigest (host : Host) (w : World) : String :=
  host.token "effective_world_relation_v1"
    (.obj [("facts", .arr (w.facts.map fun f => text (f.digest host)))])

/-- `world_digest`. -/
def digest (host : Host) (w : World) : String :=
  host.token "effective_world_v1" (.obj [
    ("schema_digest", text w.schemaDigest),
    ("base_view_digest", text w.baseViewDigest),
    ("admissibility_digest", text w.admissibilityDigest),
    ("dependency_predicate_ids", .arr (w.dependencyPredicateIds.map text)),
    ("relation_digest", text (w.relationDigest host)),
    ("operation_digests", .arr (w.operations.map fun o => text (o.digest host))),
    ("closure_digest", text (closureDigest host w.closure))])

/-- The rows of a predicate, in the order of the facts. -/
def rowsOf (w : World) (predicateId : String) : List Row :=
  (w.facts.filter (·.predicateId = predicateId)).map fun f =>
    ⟨f.witnessId, f.values.map (·.toRaw)⟩

/-- The rows of every predicate of the world. -/
def relation (w : World) : Relation where
  entries := w.dependencyPredicateIds.dedup.map fun p => (p, w.rowsOf p)
  nodup := by
    unfold Dict.keys
    rw [List.map_map]
    exact (List.map_id _).symm ▸ List.nodup_dedup _

end World

/-- `effective_world_to_relation_v1`. -/
def effectiveWorldToRelationV1 (host : Host) (world : World) : Except Fault Relation := do
  let resealed ← adaptShape "SCENARIO_WORLD_INVALID"
    (effectiveWorld host world.schemaDigest world.baseViewDigest world.admissibilityDigest
      world.dependencyPredicateIds world.facts world.operations world.closure)
  demand (resealed.relationDigest host = world.relationDigest host &&
      resealed.digest host = world.digest host)
    "effective world digest does not match its contents" "SCENARIO_WORLD_DIGEST_MISMATCH"
  .ok world.relation

/-! ## Resealing -/

/-- The constructor of a world takes its own result. -/
theorem effectiveWorld_idem {host : Host} {schemaDigest baseViewDigest admissibilityDigest : String}
    {dependencyPredicateIds : List String} {facts : List WorldFact}
    {operations : List ResolvedOperation} {closure : List ClosureTarget} {world : World}
    (h : effectiveWorld host schemaDigest baseViewDigest admissibilityDigest dependencyPredicateIds
      facts operations closure = .ok world) :
    effectiveWorld host world.schemaDigest world.baseViewDigest world.admissibilityDigest
      world.dependencyPredicateIds world.facts world.operations world.closure = .ok world := by
  unfold effectiveWorld at h
  obtain ⟨htokens, h⟩ := bind_unit_ok_iff.mp h
  obtain ⟨hnames, h⟩ := bind_unit_ok_iff.mp h
  obtain ⟨hnonempty, h⟩ := bind_unit_ok_iff.mp h
  obtain ⟨hpredicates, h⟩ := bind_unit_ok_iff.mp h
  obtain ⟨hwitnesses, h⟩ := bind_unit_ok_iff.mp h
  cases h
  have hnames' : each (fun p => requireNonEmptyStr p "EffectiveWorldV1.dependency_predicate_ids")
      (canonicalStrings dependencyPredicateIds) = .ok () := by
    rw [each_ok_iff] at hnames ⊢
    intro p hp
    exact hnames p (mem_canonicalStrings.mp hp)
  have hnonempty' : (!(canonicalStrings dependencyPredicateIds).isEmpty) = true := by
    obtain ⟨p, hp⟩ : ∃ p, p ∈ dependencyPredicateIds := by
      apply List.exists_mem_of_ne_nil
      simpa using hnonempty
    simpa using List.ne_nil_of_mem (mem_canonicalStrings.mpr hp)
  have hpredicates' : ((sortOn (·.digest host) facts).all
      (·.predicateId ∈ canonicalStrings dependencyPredicateIds)) = true := by
    simpa using hpredicates
  have hwitnesses' : decide (((sortOn (·.digest host) facts).map (·.witnessId)).Nodup) = true := by
    rw [require_ok_iff, decide_eq_true_eq] at hwitnesses
    exact decide_eq_true
      (((List.perm_insertionSort _ facts).map (·.witnessId)).nodup_iff.mpr hwitnesses)
  unfold effectiveWorld
  dsimp only
  rw [htokens, ok_bind, hnames', ok_bind, require_of_true hnonempty', ok_bind,
    require_of_true hpredicates', ok_bind, require_of_true hwitnesses', ok_bind, canonicalStrings_idem,
    sortOn_sortOn, sortOn_sortOn]

theorem effectiveWorldToRelationV1_ok {host : Host}
    {schemaDigest baseViewDigest admissibilityDigest : String} {dependencyPredicateIds : List String}
    {facts : List WorldFact} {operations : List ResolvedOperation} {closure : List ClosureTarget}
    {world : World} (h : effectiveWorld host schemaDigest baseViewDigest admissibilityDigest
      dependencyPredicateIds facts operations closure = .ok world) :
    effectiveWorldToRelationV1 host world = .ok world.relation := by
  unfold effectiveWorldToRelationV1
  rw [adaptShape_ok_iff.mpr (effectiveWorld_idem h), ok_bind, demand_ok_iff.mpr (by simp), ok_bind]

/-! ## Cells -/

/-- A cell of a view: what a claim stores of an argument. -/
def IsCell (tag : String) (d : Datum) : Prop :=
  ∃ value atom, valAtomForClaimArg tag value = .ok atom ∧ d = View.datumOf atom

/-- A stored cell, bytes apart, is typed as what it is and comes back as it was. -/
theorem IsCell.fromRaw {tag : String} {d : Datum} (h : IsCell tag d) (hbytes : tag ≠ "bytes") :
    ∃ v, ScenarioValue.fromRaw tag d = .ok v ∧ v.toRaw = d := by
  obtain ⟨value, atom, hatom, rfl⟩ := h
  have hcell : valAtomForClaimArg tag (View.datumOf atom) = .ok atom := by
    by_cases hfloat : tag = "float64"
    · subst hfloat
      obtain ⟨bits, hbits, rfl⟩ := map_ok_iff.mp hatom
      show (float64Bits (.leaf (.str (float64Hex bits)))).map _ = _
      rw [float64Bits_hex hbits]
      rfl
    · rw [@View.datumOf_cell (tag, value) atom hatom hbytes hfloat]
      exact hatom
  have hcanonical : IsCanonical tag atom := by
    unfold IsCanonical rawValue
    rw [if_neg hbytes, Option.any_some, hcell]
    exact decide_eq_true rfl
  have hraw : (⟨tag, atom, hcanonical⟩ : ScenarioValue).toRaw = View.datumOf atom :=
    ScenarioValue.toRaw_of_ne_bytes hbytes
  refine ⟨⟨tag, atom, hcanonical⟩, ?_, hraw⟩
  rw [← hraw]
  exact ScenarioValue.fromRaw_toRaw ⟨tag, atom, hcanonical⟩

/-- A stored byte string is a text, and no bytes. -/
theorem IsCell.fromRaw_bytes {d : Datum} (h : IsCell "bytes" d) (v : ScenarioValue) :
    ScenarioValue.fromRaw "bytes" d ≠ .ok v := by
  obtain ⟨value, atom, hatom, rfl⟩ := h
  obtain ⟨raw, -, rfl⟩ := map_ok_iff.mp hatom
  intro hv
  have htyped : (requireBytes (View.datumOf (.str (urlsafeBase64 raw)))).map
      (fun raw => Rules.Value.str (urlsafeBase64 raw)) = .ok v.value :=
    (ScenarioValue.fromRaw_ok hv).2
  obtain ⟨raw', hraw', -⟩ := map_ok_iff.mp htyped
  cases requireBytes_ok hraw'

/-- The cells of a row come back if no column is one of bytes. -/
theorem typedAs_of_cells {tags : List String} {ds : List Datum} (h : List.Forall₂ IsCell tags ds)
    (hbytes : "bytes" ∉ tags) : ∃ vs, TypedAs tags ds vs ∧ vs.map (·.toRaw) = ds := by
  induction h with
  | nil => exact ⟨[], .nil, rfl⟩
  | @cons tag d tags ds head _ ih =>
    rw [List.mem_cons, not_or] at hbytes
    obtain ⟨v, hv, hraw⟩ := head.fromRaw (Ne.symm hbytes.1)
    obtain ⟨vs, hvs, hraws⟩ := ih hbytes.2
    exact ⟨v :: vs, .cons hv hvs, by rw [List.map_cons, hraw, hraws]⟩

theorem not_mem_of_typedAs {tags : List String} {ds : List Datum} {vs : List ScenarioValue}
    (h : TypedAs tags ds vs) (hcells : List.Forall₂ IsCell tags ds) : "bytes" ∉ tags := by
  induction h with
  | nil => simp
  | @cons tag d v tags ds vs head _ ih =>
    obtain ⟨hcell, hcells⟩ := List.forall₂_cons.mp hcells
    rw [List.mem_cons, not_or]
    refine ⟨?_, ih hcells⟩
    intro heq
    subst heq
    exact hcell.fromRaw_bytes v head

theorem eq_of_typedAs {tags : List String} {ds : List Datum} {vs ws : List ScenarioValue}
    (h : TypedAs tags ds vs) (h' : TypedAs tags ds ws) : vs = ws := by
  have hvs := (typedAs_iff.mp h).2
  rw [(typedAs_iff.mp h').2, Except.ok.injEq] at hvs
  exact hvs.symm

/-! ## Admitted views -/

theorem exists_collect {α β ε : Type} {f : α → Except ε (List β)} {as : List α}
    (h : ∀ a ∈ as, ∃ bs, f a = .ok bs) : ∃ bs, collect f as = .ok bs := by
  induction as with
  | nil => exact ⟨[], rfl⟩
  | cons a as ih =>
    obtain ⟨bs, hbs⟩ := h a List.mem_cons_self
    obtain ⟨rest, hrest⟩ := ih fun c hc => h c (List.mem_cons_of_mem a hc)
    refine ⟨bs ++ rest, ?_⟩
    unfold collect
    rw [hbs, hrest]
    rfl

/-- A view the resolver admits: predicates with names that the schema declares, rows with ids of their
own, and in every row one stored cell for each argument. -/
structure Admitted (schema : Schema) (r : Relation) (baseViewDigest admissibilityDigest : String) :
    Prop where
  tokens : isSha256Token schema.digest = true ∧ isSha256Token baseViewDigest = true ∧
    isSha256Token admissibilityDigest = true
  nonempty : r.entries ≠ []
  sound : r.Sound
  witnessed : ∀ p, ∀ row ∈ r.rows p, row.asrtId ≠ ""
  declared : ∀ p ∈ r.predicates, ∃ tags, domainsIn p schema.doc.predicates = some tags ∧
    ∀ row ∈ r.rows p, List.Forall₂ IsCell tags row.factTuple

/-- No row has a cell in a column of bytes. -/
def BytesFree (schema : Schema) (r : Relation) : Prop :=
  ∀ p tags, domainsIn p schema.doc.predicates = some tags → r.rows p ≠ [] → "bytes" ∉ tags

/-- Views with the same predicates and in each the same pairs of a witness and a tuple. -/
def SameView (r r' : Relation) : Prop :=
  (∀ p, p ∈ r.predicates ↔ p ∈ r'.predicates) ∧ ∀ p row, row ∈ r.rows p ↔ row ∈ r'.rows p

/-- A cell, as the evaluator holds it. -/
def cellOf : Datum → Rules.Value
  | .leaf .none => .none
  | .leaf (.bool b) => .bool b
  | .leaf (.int i) => .int i
  | .leaf (.float x) => .float x.toRat
  | .leaf (.str s) => .str s
  | .leaf (.bytes b) => .bytes b
  | .arr _ | .obj _ => .none

/-- `view_facts`, as a where clause is evaluated on it. -/
def Relation.viewFacts (r : Relation) : Rules.ViewFacts := fun p =>
  (r.rows? p).map fun rows => rows.map fun row => row.factTuple.map cellOf

/-- A clause is evaluated alike on both views, it raises on both or has the same answer on both, if each
of its aggregates is over stored cells, or else happens not to read the order of its matches. -/
def SameAnswers (r r' : Relation) : Prop :=
  ∀ floats astGateOn w, Rules.EachAggWhere (fun kind target filter =>
      Rules.ReadsCells kind target filter ∨
        Rules.OrderBlind ⟨r.viewFacts, floats, astGateOn⟩ kind target filter) w →
    Rules.Together Rules.SameAnswer (Rules.evaluateWhere ⟨r.viewFacts, floats, astGateOn⟩ w)
      (Rules.evaluateWhere ⟨r'.viewFacts, floats, astGateOn⟩ w)

/-- What a cell of a column holds. Floats, references and the like are stored as texts. -/
def cellKindOf (tag : String) : Rules.CellKind :=
  if tag = "int" ∨ tag = "time" then .int else if tag = "bool" then .bool else .str

theorem IsCell.kind {tag : String} {d : Datum} (h : IsCell tag d) :
    (cellOf d).cellKind? = some (cellKindOf tag) := by
  obtain ⟨value, atom, hatom, rfl⟩ := h
  unfold valAtomForClaimArg at hatom
  split at hatom
  case h_8 =>
    split at hatom
    · cases hatom
      rfl
    · cases hatom
  case h_9 => cases hatom
  all_goals
    obtain ⟨a, -, rfl⟩ := map_ok_iff.mp hatom
    rfl

/-- The columns of an admitted view have cells of one kind. -/
theorem Admitted.typed {schema : Schema} {r : Relation} {baseViewDigest admissibilityDigest : String}
    (h : Admitted schema r baseViewDigest admissibilityDigest) : Rules.TypedView r.viewFacts := by
  intro p facts hfacts
  obtain ⟨rows, hrows, rfl⟩ := Option.map_eq_some_iff.mp hfacts
  obtain ⟨tags, -, hcells⟩ := h.declared p (Relation.mem_predicates.mpr ⟨rows, hrows⟩)
  rw [Relation.rows_of_rows? hrows] at hcells
  refine ⟨tags.map cellKindOf, fun fact hfact => ?_⟩
  obtain ⟨row, hrow, rfl⟩ := List.mem_map.mp hfact
  rw [List.forall₂_map_left_iff, List.forall₂_map_right_iff]
  exact (hcells row hrow).imp fun _ _ => IsCell.kind

theorem nodup_rows {r : Relation} (h : r.witnesses.Nodup) (p : String) : (r.rows p).Nodup := by
  cases hrows : r.rows? p with
  | none =>
    unfold Relation.rows
    rw [hrows]
    exact List.nodup_nil
  | some rows =>
    rw [Relation.rows_of_rows? hrows]
    have hsub : (rows.map (·.asrtId)).Sublist r.witnesses := by
      unfold Relation.witnesses
      rw [List.flatMap_def]
      exact List.sublist_flatten_of_mem
        (List.mem_map.mpr ⟨_, Relation.mem_entries.mpr hrows, rfl⟩)
    exact (hsub.nodup h).of_map

/-- Views with the same rows, each once, are views for the same clauses. -/
theorem SameView.answers {r r' : Relation} (h : SameView r r') (htyped : Rules.TypedView r.viewFacts)
    (hr : ∀ p, (r.rows p).Nodup) (hr' : ∀ p, (r'.rows p).Nodup) : SameAnswers r r' := by
  intro floats astGateOn w hw
  have hblind : Rules.RowBlindWhere ⟨r.viewFacts, floats, astGateOn⟩ w := by
    refine Rules.EachAggWhere.mono (fun kind target filter hagg => ?_) w hw
    rcases hagg with hcells | hblind
    · exact Rules.orderBlind_of_readsCells htyped kind target filter hcells
    · exact hblind
  refine @Rules.evaluateWhere_together ⟨r.viewFacts, floats, astGateOn⟩ r'.viewFacts ?_ w hblind
  intro p
  show Option.Rel List.Perm ((r.rows? p).map _) ((r'.rows? p).map _)
  by_cases hp : p ∈ r.predicates
  · rw [Relation.rows?_of_mem hp, Relation.rows?_of_mem ((h.1 p).mp hp)]
    have hperm : (r.rows p).Perm (r'.rows p) :=
      (List.perm_ext_iff_of_nodup (hr p) (hr' p)).mpr (h.2 p)
    exact .some (hperm.map _)
  · have hnone : r.rows? p = none := by
      rw [Option.eq_none_iff_forall_ne_some]
      intro rows hrows
      exact hp (Relation.mem_predicates.mpr ⟨rows, hrows⟩)
    have hnone' : r'.rows? p = none := by
      rw [Option.eq_none_iff_forall_ne_some]
      intro rows hrows
      exact hp ((h.1 p).mpr (Relation.mem_predicates.mpr ⟨rows, hrows⟩))
    rw [hnone, hnone']
    exact .none

theorem domains_ne_nil {p : String} {ps : List PredicateDoc} {tags : List String}
    (h : domainsIn p ps = some tags) : tags ≠ [] := by
  induction ps with
  | nil => cases h
  | cons q ps ih =>
    unfold domainsIn at h
    split_ifs at h with hp hempty htags
    · cases h
      simpa using hempty
    · exact ih h
    · exact ih h

section

variable {host : Host} {schema : Schema} {r : Relation} {baseViewDigest admissibilityDigest : String}

/-- The facts of an admitted view without bytes. -/
theorem typedFacts_of_admitted (h : Admitted schema r baseViewDigest admissibilityDigest)
    (hbytes : BytesFree schema r) : ∃ facts, typedFacts host schema r.sorted [] = .ok facts := by
  unfold typedFacts
  apply exists_collect
  intro e he
  obtain ⟨p, rows⟩ := e
  rw [Relation.mem_entries, Relation.rows?_sorted] at he
  have hrows := Relation.rows_of_rows? he
  obtain ⟨tags, htags, hcells⟩ := h.declared p (Relation.mem_predicates.mpr ⟨rows, he⟩)
  rw [hrows] at hcells
  have hfacts : ∃ fs, mapOk (typedFact host p tags []) rows = .ok fs := by
    apply exists_mapOk
    intro row hrow
    have hfree : "bytes" ∉ tags := by
      apply hbytes p tags htags
      rw [hrows]
      exact List.ne_nil_of_mem hrow
    obtain ⟨vs, hvs, -⟩ := typedAs_of_cells (hcells row hrow) hfree
    obtain ⟨hlength, hvalues⟩ := typedAs_iff.mp hvs
    have hne : vs ≠ [] := by
      intro hnil
      have htagsEq := hvs.tags_eq
      rw [hnil] at htagsEq
      exact domains_ne_nil htags htagsEq.symm
    have hname : p ≠ "" := h.sound.named p (Relation.mem_predicates.mpr ⟨rows, he⟩)
    have hwitness : row.asrtId ≠ "" := h.witnessed p row (by rw [hrows]; exact hrow)
    have htyped : typedValues host p tags row = .ok vs := by
      unfold typedValues
      rw [demand_ok_iff.mpr (by simpa using hlength), ok_bind]
      exact adaptShape_ok_iff.mpr hvalues
    refine ⟨⟨p, row.asrtId, vs, if row.asrtId ∈ [] then .scenario else .baseline⟩, ?_⟩
    unfold typedFact worldFact requireNonEmptyStr
    rw [htyped, ok_bind, require_of_true (by simpa using hname), ok_bind,
      require_of_true (by simpa using hwitness), ok_bind, require_of_true (by simpa using hne), ok_bind]
  obtain ⟨fs, hfs⟩ := hfacts
  refine ⟨fs, ?_⟩
  rw [predicateDomains_ok_iff.mpr htags, ok_bind, hfs]

/-- The facts have the witnesses of the rows. -/
theorem witnesses_of_typedFacts {facts : List WorldFact}
    (h : typedFacts host schema r [] = .ok facts) : facts.map (·.witnessId) = r.witnesses := by
  unfold typedFacts at h
  obtain ⟨g, hg, rfl⟩ := collect_eq_flatMap h
  unfold Relation.witnesses
  rw [List.map_flatMap]
  apply List.flatMap_congr
  intro e he
  obtain ⟨tags, htags, hfacts⟩ := bind_ok_iff.mp (hg e he)
  have hwitness : ∀ row f, typedFact host e.1 tags [] row = .ok f → f.witnessId = row.asrtId :=
    fun row f hf => (of_typedFact (predicateDomains_ok_iff.mp htags) hf).witness
  have hforall := mapOk_ok_iff.mp hfacts
  generalize g e = fs at hforall
  generalize e.2 = rows at hforall
  induction hforall with
  | nil => rfl
  | cons head _ ih => rw [List.map_cons, List.map_cons, hwitness _ _ head, ih]

/-- The world of an admitted view without bytes. -/
theorem baselineWorld_of_admitted (h : Admitted schema r baseViewDigest admissibilityDigest)
    (hbytes : BytesFree schema r) :
    ∃ world, baselineWorld host schema r baseViewDigest admissibilityDigest = .ok world := by
  obtain ⟨facts, hfacts⟩ := @typedFacts_of_admitted host _ _ _ _ h hbytes
  have hfactsOf := factsOf_of_typedFacts hfacts
  have hfrozen : freezeRelation host r = .ok r.sorted := freezeRelation_ok_iff.mpr ⟨h.sound, rfl⟩
  have hperm : r.sorted.entries.Perm r.entries := List.perm_insertionSort _ _
  have hnonempty : r.sorted.entries ≠ [] := by
    intro hnil
    rw [hnil] at hperm
    exact h.nonempty hperm.nil_eq.symm
  -- what `EffectiveWorldV1` and `baseline_world` check, each from `Admitted`
  have hdomains : each (fun p => (predicateDomains host schema p).map fun _ => ())
      r.sorted.predicates = .ok () := by
    rw [each_ok_iff]
    intro p hp
    obtain ⟨tags, htags, -⟩ := h.declared p (Relation.mem_predicates_sorted.mp hp)
    rw [predicateDomains_ok_iff.mpr htags]
    rfl
  have hnamed : each (fun p => requireNonEmptyStr p "EffectiveWorldV1.dependency_predicate_ids")
      r.sorted.predicates = .ok () := by
    rw [each_ok_iff]
    intro p hp
    exact require_of_true
      (by simpa using h.sound.named p (Relation.mem_predicates_sorted.mp hp))
  have hpredicates : (facts.all (·.predicateId ∈ r.sorted.predicates)) = true := by
    rw [List.all_eq_true]
    intro f hf
    obtain ⟨row, hrow, -⟩ := hfactsOf.row f hf
    exact decide_eq_true (Relation.mem_predicates_of_row hrow)
  have hwitnesses : decide ((facts.map (·.witnessId)).Nodup) = true := by
    rw [witnesses_of_typedFacts hfacts, decide_eq_true_eq]
    have hnodup := h.sound.distinct
    unfold Relation.witnesses at hnodup ⊢
    exact (hperm.flatMap_right _).nodup_iff.mpr hnodup
  obtain ⟨hschema, hbase, hadmissibility⟩ := h.tokens
  have htokens : each (fun p : String × String => require (isSha256Token p.2)
      (Fault.protocolShape s!"EffectiveWorldV1.{p.1} must be a sha256 token"))
      [("schema_digest", schema.digest), ("base_view_digest", baseViewDigest),
        ("admissibility_digest", admissibilityDigest)] = .ok () := by
    rw [each_ok_iff]
    intro p hp
    simp only [List.mem_cons, List.not_mem_nil, or_false] at hp
    rcases hp with rfl | rfl | rfl
    · exact require_of_true hschema
    · exact require_of_true hbase
    · exact require_of_true hadmissibility
  have hlisted : (!r.sorted.predicates.isEmpty) = true := by
    simpa [Relation.predicates, Dict.keys] using hnonempty
  obtain ⟨world, hworld⟩ : ∃ world, effectiveWorld host schema.digest baseViewDigest
      admissibilityDigest r.sorted.predicates facts [] [] = .ok world := by
    unfold effectiveWorld
    rw [htokens, ok_bind, hnamed, ok_bind, require_of_true hlisted, ok_bind,
      require_of_true hpredicates, ok_bind, require_of_true hwitnesses, ok_bind]
    exact ⟨_, rfl⟩
  refine ⟨world, ?_⟩
  unfold baselineWorld shaToken
  rw [demand_ok_iff.mpr hbase, ok_bind, demand_ok_iff.mpr hadmissibility, ok_bind, hfrozen, ok_bind,
    demand_ok_iff.mpr (by simpa using hnonempty), ok_bind, hdomains, ok_bind, hfacts, ok_bind, hworld]

/-- What a baseline world is made of. -/
theorem baselineWorld_ok {world : World}
    (h : baselineWorld host schema r baseViewDigest admissibilityDigest = .ok world) :
    FactsOf schema r.sorted [] world.facts ∧
      (∀ p, p ∈ world.dependencyPredicateIds ↔ p ∈ r.predicates) ∧
      (world.facts.map (·.witnessId)).Nodup ∧
      effectiveWorldToRelationV1 host world = .ok world.relation := by
  unfold baselineWorld at h
  obtain ⟨-, h⟩ := bind_unit_ok_iff.mp h
  obtain ⟨-, h⟩ := bind_unit_ok_iff.mp h
  obtain ⟨frozen, hfrozen, h⟩ := bind_ok_iff.mp h
  obtain ⟨-, rfl⟩ := freezeRelation_ok_iff.mp hfrozen
  obtain ⟨-, h⟩ := bind_unit_ok_iff.mp h
  obtain ⟨-, h⟩ := bind_unit_ok_iff.mp h
  obtain ⟨facts, hfacts, h⟩ := bind_ok_iff.mp h
  have hrelation := effectiveWorldToRelationV1_ok h
  unfold effectiveWorld at h
  obtain ⟨-, h⟩ := bind_unit_ok_iff.mp h
  obtain ⟨-, h⟩ := bind_unit_ok_iff.mp h
  obtain ⟨-, h⟩ := bind_unit_ok_iff.mp h
  obtain ⟨-, h⟩ := bind_unit_ok_iff.mp h
  obtain ⟨hwitnesses, h⟩ := bind_unit_ok_iff.mp h
  rw [require_ok_iff, decide_eq_true_eq] at hwitnesses
  cases h
  refine ⟨?_, ?_, ?_, hrelation⟩
  · have hfactsOf := factsOf_of_typedFacts hfacts
    refine ⟨fun f hf => hfactsOf.row f (mem_sortOn.mp hf), ?_⟩
    intro p row hrow
    obtain ⟨f, hf, hof⟩ := hfactsOf.fact p row hrow
    exact ⟨f, mem_sortOn.mpr hf, hof⟩
  · intro p
    rw [mem_canonicalStrings, Relation.mem_predicates_sorted]
  · have hperm : (sortOn (·.digest host) facts).Perm facts := List.perm_insertionSort _ facts
    exact (hperm.map (·.witnessId)).nodup_iff.mpr hwitnesses

theorem nodup_rows_relation {w : World} (h : (w.facts.map (·.witnessId)).Nodup) (p : String) :
    (w.relation.rows p).Nodup := by
  have hrowsOf : (w.rowsOf p).Nodup := by
    have hsub : ((w.rowsOf p).map (·.asrtId)).Sublist (w.facts.map (·.witnessId)) := by
      unfold World.rowsOf
      rw [List.map_map]
      exact List.filter_sublist.map _
    exact (hsub.nodup h).of_map
  cases hrows : w.relation.rows? p with
  | none =>
    unfold Relation.rows
    rw [hrows]
    exact List.nodup_nil
  | some rows =>
    obtain ⟨q, _, hq⟩ := List.mem_map.mp (Relation.mem_entries.mpr hrows)
    cases hq
    rw [Relation.rows_of_rows? hrows]
    exact hrowsOf

theorem mem_predicates_relation {w : World} {p : String} :
    p ∈ w.relation.predicates ↔ p ∈ w.dependencyPredicateIds := by
  unfold Relation.predicates World.relation Dict.keys
  rw [List.map_map]
  show p ∈ w.dependencyPredicateIds.dedup.map id ↔ _
  rw [List.map_id, List.mem_dedup]

theorem mem_rows_relation {w : World} (hw : ∀ f ∈ w.facts, f.predicateId ∈ w.dependencyPredicateIds)
    {p : String} {row : Row} : row ∈ w.relation.rows p ↔
      ∃ f ∈ w.facts, f.predicateId = p ∧ ⟨f.witnessId, f.values.map (·.toRaw)⟩ = row := by
  have hrowsOf : row ∈ w.rowsOf p ↔
      ∃ f ∈ w.facts, f.predicateId = p ∧ ⟨f.witnessId, f.values.map (·.toRaw)⟩ = row := by
    unfold World.rowsOf
    simp [List.mem_map, and_assoc]
  rw [← hrowsOf]
  by_cases hp : p ∈ w.dependencyPredicateIds
  · have hentry : (p, w.rowsOf p) ∈ w.relation.entries :=
      List.mem_map.mpr ⟨p, List.mem_dedup.mpr hp, rfl⟩
    rw [Relation.rows_of_rows? (Relation.mem_entries.mp hentry)]
  · refine iff_of_false ?_ ?_
    · intro hrow
      exact hp (mem_predicates_relation.mp (Relation.mem_predicates_of_row hrow))
    · intro hrow
      obtain ⟨f, hf, rfl, -⟩ := hrowsOf.mp hrow
      exact hp (hw f hf)

/-- Every fact of the world has a row of the view, which is what the fact is turned into. -/
theorem row_of_fact (h : Admitted schema r baseViewDigest admissibilityDigest)
    (hbytes : BytesFree schema r) {p : String} {row : Row} (hrow : row ∈ r.rows p) {f : WorldFact}
    (hf : f.Of schema [] p row) : (⟨f.witnessId, f.values.map (·.toRaw)⟩ : Row) = row := by
  obtain ⟨tags, htags, htyped⟩ := hf.typed
  obtain ⟨tags', htags', hcells⟩ := h.declared p (Relation.mem_predicates_of_row hrow)
  rw [htags, Option.some.injEq] at htags'
  subst htags'
  obtain ⟨vs, hvs, hraw⟩ := typedAs_of_cells (hcells row hrow)
    (hbytes p tags htags (List.ne_nil_of_mem hrow))
  rw [hf.witness, eq_of_typedAs htyped hvs, hraw]

/-- **When a world is a lossless image.** An admitted view becomes a world and the world the view
again, with the same pairs of a witness and a tuple in every predicate and the same answers to where
clauses, exactly if no row has a cell in a column of bytes. -/
theorem lossless_iff (h : Admitted schema r baseViewDigest admissibilityDigest) :
    (∃ world r', baselineWorld host schema r baseViewDigest admissibilityDigest = .ok world ∧
      effectiveWorldToRelationV1 host world = .ok r' ∧ SameView r r' ∧ SameAnswers r r') ↔
        BytesFree schema r := by
  constructor
  · intro ⟨world, r', hworld, _⟩ p tags htags hrows
    obtain ⟨hfacts, -, -, -⟩ := baselineWorld_ok hworld
    obtain ⟨row, hrow⟩ := List.exists_mem_of_ne_nil _ hrows
    obtain ⟨f, -, hf⟩ := hfacts.fact p row (by rwa [Relation.rows_sorted])
    obtain ⟨tags', htags', htyped⟩ := hf.typed
    obtain ⟨tags'', htags'', hcells⟩ := h.declared p (Relation.mem_predicates_of_row hrow)
    rw [htags, Option.some.injEq] at htags' htags''
    subst htags' htags''
    exact not_mem_of_typedAs htyped (hcells row hrow)
  · intro hbytes
    obtain ⟨world, hworld⟩ := @baselineWorld_of_admitted host _ _ _ _ h hbytes
    obtain ⟨hfacts, hpredicates, hwitnesses, hrelation⟩ := baselineWorld_ok hworld
    have hlisted : ∀ f ∈ world.facts, f.predicateId ∈ world.dependencyPredicateIds := by
      intro f hf
      obtain ⟨row, hrow, -⟩ := hfacts.row f hf
      rw [Relation.rows_sorted] at hrow
      exact (hpredicates _).mpr (Relation.mem_predicates_of_row hrow)
    have hsame : SameView r world.relation := by
      refine ⟨?_, ?_⟩
      · intro p
        rw [mem_predicates_relation, hpredicates]
      · intro p row
        rw [mem_rows_relation hlisted]
        constructor
        · intro hrow
          obtain ⟨f, hf, hof⟩ := hfacts.fact p row (by rwa [Relation.rows_sorted])
          exact ⟨f, hf, hof.predicate, row_of_fact h hbytes hrow hof⟩
        · intro ⟨f, hf, hp, hrow⟩
          subst hp
          obtain ⟨row', hrow', hof⟩ := hfacts.row f hf
          rw [Relation.rows_sorted] at hrow'
          rw [← hrow, row_of_fact h hbytes hrow' hof]
          exact hrow'
    exact ⟨world, world.relation, hworld, hrelation, hsame,
      hsame.answers h.typed (nodup_rows h.sound.distinct) (nodup_rows_relation hwitnesses)⟩

end

/-! ## A photo -/

/-- Persons with a height and a photo. -/
def photoDoc : SchemaDoc where
  entities := personDoc.entities
  predicates := [
    { predId := "Person:exists", ownerType := some "Person", cardinality := some "single"
      argSpecs := [⟨"person", "entity_ref"⟩], groupKeyIndexes := [0], entityExists := some true },
    personField "id" "string" "single" (some true), personField "height" "float64" "single" none,
    personField "photo" "bytes" "single" none]

def zeroToken : String := "sha256:" ++ String.ofList (List.replicate 64 '0')

def photoSchema : Schema where
  doc := photoDoc
  index := ((buildSchemaIndex tagHost.entity photoDoc).toOption).getD ⟨[], [], [], [], []⟩
  digest := zeroToken

/-- The person `p` is one and a half high, with the photos of some rows. -/
def photoView (photos : List Row) : Relation where
  entries := [("Person:exists", [⟨"a0", [text (personRef "p")]⟩]),
    ("Person:id", [⟨"a1", [text (personRef "p"), text "p"]⟩]),
    ("Person:height", [⟨"a2", [text (personRef "p"), text "0x3ff8000000000000"]⟩]),
    ("Person:photo", photos)]
  nodup := by simp [Dict.keys]

/-- The photo of the bytes `1` and `2`, as a claim stores it. -/
def storedPhoto : Row := ⟨"a3", [text (personRef "p"), text "AQI"]⟩

theorem personRef_cell : IsCell "entity_ref" (text (personRef "p")) := by
  refine ⟨text (personRef "p"), .str (personRef "p"), ?_, rfl⟩
  rw [personRef_p]
  rfl

/-- An entry of a view that is admitted. -/
def EntryAdmitted (schema : Schema) (e : String × List Row) : Prop :=
  e.1 ≠ "" ∧ ∃ tags, domainsIn e.1 schema.doc.predicates = some tags ∧
    ∀ row ∈ e.2, row.asrtId ≠ "" ∧ List.Forall₂ IsCell tags row.factTuple

theorem photoView_entries {photos : List Row} (h : ∀ row ∈ photos, row = storedPhoto) :
    ∀ e ∈ (photoView photos).entries, EntryAdmitted photoSchema e := by
  have hid : IsCell "string" (text "p") := ⟨text "p", .str "p", rfl, rfl⟩
  have hheight : IsCell "float64" (text "0x3ff8000000000000") :=
    ⟨.leaf (.float ⟨0x3ff8000000000000⟩), .str "0x3ff8000000000000", rfl, rfl⟩
  have hphoto : IsCell "bytes" (text "AQI") := ⟨.leaf (.bytes [1, 2]), .str "AQI", rfl, rfl⟩
  have hcells : ∀ {tag : String} {d : Datum}, IsCell tag d →
      List.Forall₂ IsCell ["entity_ref", tag] [text (personRef "p"), d] :=
    fun hd => .cons personRef_cell (.cons hd .nil)
  unfold photoView
  simp only [List.forall_mem_cons]
  refine ⟨⟨by simp, _, rfl, ?_⟩, ⟨by simp, _, rfl, ?_⟩, ⟨by simp, _, rfl, ?_⟩,
    ⟨by simp, _, rfl, ?_⟩, by simp⟩
  · exact List.forall_mem_singleton.mpr ⟨by decide, .cons personRef_cell .nil⟩
  · exact List.forall_mem_singleton.mpr ⟨by decide, hcells hid⟩
  · exact List.forall_mem_singleton.mpr ⟨by decide, hcells hheight⟩
  · intro row hrow
    rw [h row hrow]
    exact ⟨by decide, hcells hphoto⟩

theorem photoView_admitted {photos : List Row} (h : ∀ row ∈ photos, row = storedPhoto)
    (hnodup : (photoView photos).witnesses.Nodup) :
    Admitted photoSchema (photoView photos) zeroToken zeroToken := by
  have hentries := photoView_entries h
  refine ⟨⟨rfl, rfl, rfl⟩, List.cons_ne_nil _ _, ⟨?_, hnodup⟩, ?_, ?_⟩
  · intro p hp
    obtain ⟨rows, hrows⟩ := Relation.mem_predicates.mp hp
    exact (hentries _ (Relation.mem_entries.mpr hrows)).1
  · intro p row hrow
    obtain ⟨rows, hrows⟩ := Relation.mem_predicates.mp (Relation.mem_predicates_of_row hrow)
    rw [Relation.rows_of_rows? hrows] at hrow
    obtain ⟨-, tags, -, hrow'⟩ := hentries _ (Relation.mem_entries.mpr hrows)
    exact (hrow' row hrow).1
  · intro p hp
    obtain ⟨rows, hrows⟩ := Relation.mem_predicates.mp hp
    obtain ⟨-, tags, htags, hrow⟩ := hentries _ (Relation.mem_entries.mpr hrows)
    refine ⟨tags, htags, ?_⟩
    rw [Relation.rows_of_rows? hrows]
    exact fun row hmem => (hrow row hmem).2

/-- Without a photo, the view comes back. -/
theorem photoView_lossless : ∃ world r',
    baselineWorld tagHost photoSchema (photoView []) zeroToken zeroToken = .ok world ∧
      effectiveWorldToRelationV1 tagHost world = .ok r' ∧ SameView (photoView []) r' ∧
        SameAnswers (photoView []) r' := by
  refine (lossless_iff (photoView_admitted (by simp) (by decide))).mpr ?_
  intro p tags htags hrows hbytes
  obtain ⟨row, hrow⟩ := List.exists_mem_of_ne_nil _ hrows
  obtain ⟨rows, hrows⟩ := Relation.mem_predicates.mp (Relation.mem_predicates_of_row hrow)
  rw [Relation.rows_of_rows? hrows] at hrow
  have hentry := Relation.mem_entries.mpr hrows
  unfold photoView at hentry
  simp only [List.mem_cons, Prod.mk.injEq, List.not_mem_nil, or_false] at hentry
  rcases hentry with ⟨rfl, rfl⟩ | ⟨rfl, rfl⟩ | ⟨rfl, rfl⟩ | ⟨rfl, rfl⟩
  · cases htags
    exact absurd hbytes (by decide)
  · cases htags
    exact absurd hbytes (by decide)
  · cases htags
    exact absurd hbytes (by decide)
  · cases hrow

/-- With the photo, there is no world: a claim stores the bytes as a text, and the typing of the row
takes bytes. -/
theorem photo_not_lossless :
    Admitted photoSchema (photoView [storedPhoto]) zeroToken zeroToken ∧
      (baselineWorld tagHost photoSchema (photoView [storedPhoto]) zeroToken zeroToken).isOk =
        false := by
  have hadmitted : Admitted photoSchema (photoView [storedPhoto]) zeroToken zeroToken :=
    photoView_admitted (by simp) (by decide)
  refine ⟨hadmitted, ?_⟩
  cases hworld : baselineWorld tagHost photoSchema (photoView [storedPhoto]) zeroToken zeroToken with
  | error fault => rfl
  | ok world =>
    have hrow : storedPhoto ∈ (photoView [storedPhoto]).rows "Person:photo" :=
      List.mem_singleton_self storedPhoto
    obtain ⟨hfacts, -, -, -⟩ := baselineWorld_ok hworld
    obtain ⟨f, -, hf⟩ := hfacts.fact "Person:photo" storedPhoto (by rwa [Relation.rows_sorted])
    obtain ⟨tags, htags, htyped⟩ := hf.typed
    obtain ⟨tags', htags', hcells⟩ :=
      hadmitted.declared "Person:photo" (Relation.mem_predicates_of_row hrow)
    cases htags
    cases htags'
    exact absurd (List.mem_cons_of_mem _ List.mem_cons_self)
      (not_mem_of_typedAs htyped (hcells storedPhoto hrow))

end FactGraph.Scenario
