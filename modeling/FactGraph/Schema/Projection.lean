import FactGraph.Entity.Index
import FactGraph.View.Entities

/-!
# Projecting an indexed document

What `project_view_facts` looks up in a document that `build_schema_index` accepts: the existence
predicate of an owner and the identity predicate of a field are the ones the document declares, and
the rows of a predicate are found in the projection under its id.
-/

namespace FactGraph.Schema

open Entity Check View

/-! ## The indexes of the projector -/

/-- What a predicate stores in `exists_by_owner`. -/
def existsEntry (p : SchemaPred) : Option (String × String) :=
  match p.ownerType, p.predId with
  | some owner, some predId => if p.isEntityExists then some (owner, predId) else none
  | _, _ => none

/-- What a predicate stores in `predicates_by_owner_field`. -/
def identityEntry (p : SchemaPred) : Option ((String × String) × SchemaPred) :=
  match p.ownerType, p.predId, p.isIdentityField, p.pyFieldName with
  | some owner, some _, true, some field => if field ≠ "" then some ((owner, field), p) else none
  | _, _, _, _ => none

theorem existsByOwner_add (ix : OwnerIndex) (p : SchemaPred) :
    (ix.add p).existsByOwner = Dict.update ix.existsByOwner (existsEntry p).toList := by
  unfold OwnerIndex.add existsEntry
  cases p.ownerType with
  | none => rfl
  | some owner =>
    cases p.predId with
    | none => rfl
    | some predId =>
      dsimp only
      split <;> rfl

theorem byOwnerField_add (ix : OwnerIndex) (p : SchemaPred) :
    (ix.add p).byOwnerField = Dict.update ix.byOwnerField (identityEntry p).toList := by
  unfold OwnerIndex.add identityEntry
  cases p.ownerType with
  | none => rfl
  | some owner =>
    cases p.predId with
    | none => rfl
    | some predId =>
      cases p.isIdentityField with
      | false => rfl
      | true =>
        cases p.pyFieldName with
        | none => rfl
        | some field =>
          dsimp only
          split <;> rfl

theorem update_filterMap_cons {K V α : Type} [DecidableEq K] (d : List (K × V))
    (f : α → Option (K × V)) (a : α) (as : List α) :
    Dict.update d ((a :: as).filterMap f) =
      Dict.update (Dict.update d (f a).toList) (as.filterMap f) := by
  rw [List.filterMap_cons]
  cases f a <;> rfl

theorem existsByOwner_run (ps : List SchemaPred) (ix : OwnerIndex) :
    (ps.foldl OwnerIndex.add ix).existsByOwner =
      Dict.update ix.existsByOwner (ps.filterMap existsEntry) := by
  induction ps generalizing ix with
  | nil => rfl
  | cons p ps ih => rw [List.foldl_cons, ih, existsByOwner_add, update_filterMap_cons]

theorem byOwnerField_run (ps : List SchemaPred) (ix : OwnerIndex) :
    (ps.foldl OwnerIndex.add ix).byOwnerField =
      Dict.update ix.byOwnerField (ps.filterMap identityEntry) := by
  induction ps generalizing ix with
  | nil => rfl
  | cons p ps ih => rw [List.foldl_cons, ih, byOwnerField_add, update_filterMap_cons]

theorem ownerIndex_view (doc : SchemaDoc) :
    doc.view.ownerIndex = (doc.predicates.map PredicateDoc.view).foldl OwnerIndex.add {} := by
  unfold SchemaIr.ownerIndex SchemaDoc.view
  have hsome : doc.predicates.map (fun p => some p.view) =
      (doc.predicates.map PredicateDoc.view).map some := by rw [List.map_map]; rfl
  rw [Option.getD_some, hsome, List.reduceOption, List.filterMap_map]
  exact congrArg _ List.filterMap_some

/-! ## The declared predicates -/

variable {doc : SchemaDoc} {index : SchemaIndex}

/-- The existence predicate of an owner. -/
theorem get?_existsByOwner_iff (h : Indexed doc index) {owner id : String} :
    Dict.get? doc.view.ownerIndex.existsByOwner owner = some id ↔
      ∃ p ∈ doc.predicates, p.isEntityExists = true ∧ p.ownerType = some owner ∧ p.predId = id := by
  have hentry : ∀ o i, (o, i) ∈ (doc.predicates.map PredicateDoc.view).filterMap existsEntry ↔
      ∃ p ∈ doc.predicates, p.isEntityExists = true ∧ p.ownerType = some o ∧ p.predId = i := by
    intro o i
    rw [List.filterMap_map, List.mem_filterMap]
    constructor
    · rintro ⟨p, hp, hentry⟩
      unfold Function.comp existsEntry PredicateDoc.view at hentry
      dsimp only at hentry
      cases howner : p.ownerType with
      | none => simp [howner] at hentry
      | some owner =>
        simp only [howner] at hentry
        split at hentry
        next hexists =>
          cases hentry
          exact ⟨p, hp, hexists, howner, rfl⟩
        next => cases hentry
    · rintro ⟨p, hp, hexists, howner, rfl⟩
      refine ⟨p, hp, ?_⟩
      unfold Function.comp existsEntry PredicateDoc.view
      simp [howner, hexists]
  rw [ownerIndex_view, existsByOwner_run, Dict.get?_update_iff, hentry]
  · simp
  · intro o i j hi hj
    obtain ⟨p, hp, hpe, hpo, rfl⟩ := (hentry o i).mp hi
    obtain ⟨q, hq, hqe, hqo, rfl⟩ := (hentry o j).mp hj
    rw [h.existence p hp q hq hpe hqe (hpo.trans hqo.symm)]

/-- The identity predicate of a field. -/
theorem get?_byOwnerField_iff (h : Indexed doc index) {owner field : String} {v : SchemaPred} :
    Dict.get? doc.view.ownerIndex.byOwnerField (owner, field) = some v ↔
      ∃ p ∈ doc.predicates, p.isIdentityField = true ∧ p.ownerType = some owner ∧
        p.pyFieldName = some field ∧ field ≠ "" ∧ p.view = v := by
  have hentry : ∀ o f v, ((o, f), v) ∈
      (doc.predicates.map PredicateDoc.view).filterMap identityEntry ↔
      ∃ p ∈ doc.predicates, p.isIdentityField = true ∧ p.ownerType = some o ∧
        p.pyFieldName = some f ∧ f ≠ "" ∧ p.view = v := by
    intro o f v
    rw [List.filterMap_map, List.mem_filterMap]
    constructor
    · rintro ⟨p, hp, hentry⟩
      unfold Function.comp identityEntry at hentry
      cases howner : p.ownerType with
      | none => simp [PredicateDoc.view, howner] at hentry
      | some owner =>
        cases hidentity : p.isIdentityField with
        | false => simp [PredicateDoc.view, howner, hidentity] at hentry
        | true =>
          cases hfield : p.pyFieldName with
          | none => simp [PredicateDoc.view, howner, hidentity, hfield] at hentry
          | some field =>
            simp only [PredicateDoc.view, howner, hidentity, hfield] at hentry
            split at hentry
            next hne =>
              cases hentry
              refine ⟨p, hp, hidentity, howner, hfield, hne, ?_⟩
              rw [PredicateDoc.view, howner, hidentity, hfield]
            next => cases hentry
    · rintro ⟨p, hp, hidentity, howner, hfield, hne, rfl⟩
      refine ⟨p, hp, ?_⟩
      unfold Function.comp identityEntry
      simp [PredicateDoc.view, howner, hidentity, hfield, hne]
  rw [ownerIndex_view, byOwnerField_run, Dict.get?_update_iff, hentry]
  · simp
  · rintro ⟨o, f⟩ v w hv hw
    obtain ⟨p, hp, _, hpo, hpf, _, rfl⟩ := (hentry o f v).mp hv
    obtain ⟨q, hq, _, hqo, hqf, _, rfl⟩ := (hentry o f w).mp hw
    rw [h.eq_of_field hp hq (hpo.trans hqo.symm) hpf hqf]

/-! ## The projection -/

variable {host : View.Host} {r : LedgerReads}

/-- The rows of an ordinary predicate, before they are sorted. -/
def ordinaryRows (r : LedgerReads) (p : PredicateDoc) : Except StoreErr (List Fact) := do
  let claims ← selectActive r p.view p.predId
  mapOk (buildArgsForClaim r) claims

theorem mapOk_requirePred (ps : List PredicateDoc) :
    mapOk requirePred (ps.map fun p => some p.view) = .ok (ps.map PredicateDoc.view) := by
  rw [mapOk_ok_iff, List.forall₂_map_left_iff, List.forall₂_map_right_iff, List.forall₂_same]
  intro p _
  rfl

/-- The end of a turn of the loop over the entities. -/
def storeRows (out : List (String × List (Fact × List String)))
    (rows : Option (String × List (Fact × List String))) :
    List (String × List (Fact × List String)) :=
  match rows with
  | some (predId, rows) => Dict.set out predId rows
  | none => out

/-- The existence rows of a document are those of its entities. -/
theorem virtualRows_eq (doc : SchemaDoc) :
    virtualEntityExistsRows host r doc.view =
      (do let rows ← mapOk (entityRows host r doc.view.ownerIndex)
            (doc.entities.map fun e => some e.view)
          .ok (rows.foldl storeRows ((doc.view.ownerIndex.existsByOwner.map Prod.snd).foldl
            (fun out p => Dict.set out p []) []))) := by
  unfold virtualEntityExistsRows schemaPredicates
  rw [ownerIndex_view]
  simp only [SchemaDoc.view, ok_bind, mapOk_requirePred]
  rw [← foldlM_eq_mapOk]
  rfl

theorem requirePredId_view {p : PredicateDoc} (h : p.predId ≠ "") :
    requirePredId p.view = .ok p.predId := by
  unfold requirePredId PredicateDoc.view
  simp [require_of_true, h]

/-- The row of the projection for one predicate. -/
theorem projectPredicate_view {p : PredicateDoc} (h : p.predId ≠ "")
    (virtualExists : List (String × List (Fact × List String))) :
    projectPredicate host r virtualExists p.view =
      if p.isEntityExists then .ok (p.predId,
        sortByFact host id (((Dict.get? virtualExists p.predId).getD []).map Prod.fst))
      else (do let facts ← ordinaryRows r p; .ok (p.predId, sortByFact host id facts)) := by
  unfold projectPredicate ordinaryRows
  rw [requirePredId_view h, ok_bind]
  show (if p.isEntityExists = true then _ else _) = _
  split
  · rfl
  · cases selectActive r p.view p.predId <;> rfl

theorem projectViewFacts_eq (doc : SchemaDoc) :
    projectViewFacts host r doc.view = (do
      let virtualExists ← virtualEntityExistsRows host r doc.view
      let rows ← mapOk (projectPredicate host r virtualExists)
        (doc.predicates.map PredicateDoc.view)
      .ok (Dict.update [] rows)) := by
  unfold projectViewFacts schemaPredicates
  have hpreds : doc.view.predicates = some (doc.predicates.map fun p => some p.view) := rfl
  rw [hpreds]
  simp only [ok_bind]
  congr 1
  funext virtualExists
  unfold Dict.update
  rw [← foldlM_eq_mapOk, List.foldlM_map, List.foldlM_map]
  rfl

/-- **When a projection succeeds**: every entity and every ordinary predicate can be read. -/
theorem projects_iff (h : Indexed doc index) :
    (∃ views, projectViewFacts host r doc.view = .ok views) ↔
      (∀ e ∈ doc.entities,
        ∃ rows, entityRows host r doc.view.ownerIndex (some e.view) = .ok rows) ∧
      ∀ p ∈ doc.predicates, p.isEntityExists = false → ∃ facts, ordinaryRows r p = .ok facts := by
  rw [projectViewFacts_eq]
  rw [virtualRows_eq]
  constructor
  · rintro ⟨views, hviews⟩
    obtain ⟨virtualExists, hrows, hviews⟩ := bind_ok_iff.mp hviews
    obtain ⟨entities, hentities, _⟩ := bind_ok_iff.mp hrows
    obtain ⟨kvs, hkvs, _⟩ := bind_ok_iff.mp hviews
    refine ⟨?_, ?_⟩
    · intro e he
      obtain ⟨rows, _, hok⟩ := image_of_mapOk hentities (List.mem_map_of_mem he)
      exact ⟨rows, hok⟩
    · intro p hp hordinary
      obtain ⟨kv, _, hok⟩ := image_of_mapOk hkvs (List.mem_map_of_mem hp)
      rw [projectPredicate_view (h.named p hp), if_neg (by simp [hordinary])] at hok
      obtain ⟨facts, hfacts, _⟩ := bind_ok_iff.mp hok
      exact ⟨facts, hfacts⟩
  · rintro ⟨hentities, hordinary⟩
    have hread : ∃ rows, mapOk (entityRows host r doc.view.ownerIndex)
        (doc.entities.map fun e => some e.view) = .ok rows := by
      apply exists_mapOk
      intro e he
      obtain ⟨e', he', rfl⟩ := List.mem_map.mp he
      exact hentities e' he'
    obtain ⟨rows, hrows⟩ := hread
    rw [hrows, ok_bind]
    generalize rows.foldl storeRows _ = virtualExists
    have hproject : ∃ kvs, mapOk (projectPredicate host r virtualExists)
        (doc.predicates.map PredicateDoc.view) = .ok kvs := by
      apply exists_mapOk
      intro v hv
      obtain ⟨p, hp, rfl⟩ := List.mem_map.mp hv
      rw [projectPredicate_view (h.named p hp)]
      by_cases hexists : p.isEntityExists = true
      · exact ⟨_, by rw [if_pos hexists]⟩
      · obtain ⟨facts, hfacts⟩ := hordinary p hp (by simpa using hexists)
        exact ⟨_, by rw [if_neg hexists, hfacts]; rfl⟩
    obtain ⟨kvs, hkvs⟩ := hproject
    exact ⟨Dict.update [] kvs, by rw [ok_bind, hkvs, ok_bind]⟩

/-! ## The rows found in a projection -/

/-- The ordinary view of a document, and nothing behind it. -/
theorem split_view {doc : SchemaDoc} (hids : (doc.predicates.map (·.predId)).Nodup)
    {p : PredicateDoc} (hp : p ∈ doc.predicates) :
    ∃ before after, doc.view.predicates = some (before ++ some p.view :: after) ∧
      ∀ q, some q ∈ after → q.predId ≠ some p.predId := by
  obtain ⟨before, after, hsplit⟩ := List.append_of_mem hp
  refine ⟨before.map fun q => some q.view, after.map fun q => some q.view, ?_, ?_⟩
  · rw [SchemaDoc.view, hsplit, List.map_append, List.map_cons]
  · intro v hv hid
    obtain ⟨q, hq, hqv⟩ := List.mem_map.mp hv
    cases hqv
    rw [hsplit, List.map_append, List.map_cons, List.nodup_append] at hids
    have hqid : q.predId = p.predId := Option.some.inj hid
    have hnot := (List.nodup_cons.mp hids.2.1).1
    exact hnot (hqid ▸ List.mem_map_of_mem hq)

/-- The rows of an ordinary predicate. -/
theorem get?_ordinary (h : Indexed doc index) {views : List (String × List Fact)}
    (hviews : projectViewFacts host r doc.view = .ok views) {p : PredicateDoc}
    (hp : p ∈ doc.predicates) (hordinary : p.isEntityExists = false) :
    ∃ facts, ordinaryRows r p = .ok facts ∧
      Dict.get? views p.predId = some (sortByFact host id facts) := by
  obtain ⟨before, after, hpreds, hafter⟩ := split_view h.ids hp
  obtain ⟨selected, facts, hselected, hfacts, hget⟩ :=
    view_of_predicate hviews hpreds rfl hafter hordinary
  refine ⟨facts, ?_, hget⟩
  unfold ordinaryRows
  rw [hselected, ok_bind, hfacts]

/-- A declared entity type and its existence predicate, as the projector finds them. -/
theorem declaresExists (h : Indexed doc index) {e : EntityDoc} (he : e ∈ doc.entities)
    {p : PredicateDoc} (hp : p ∈ doc.predicates) (hexists : p.isEntityExists = true)
    (howner : p.ownerType = some e.entityType) :
    doc.view.DeclaresExists e.entityType
      (e.identityFields.map fun f => some ⟨some f.name, some f.typeDomain⟩) p.predId := by
  refine ⟨?_, (get?_existsByOwner_iff h).mpr ⟨p, hp, hexists, howner, rfl⟩, ?_⟩
  · obtain ⟨before, after, hsplit⟩ := List.append_of_mem he
    refine ⟨before.map fun e => some e.view, after.map fun e => some e.view, ?_, ?_⟩
    · rw [SchemaDoc.view, hsplit, List.map_append, List.map_cons]
      rfl
    · intro v hv t ht hget
      obtain ⟨e', he', hv⟩ := List.mem_map.mp hv
      cases hv
      cases ht
      -- another entity type has another existence predicate
      obtain ⟨q, hq, _, hqowner, hid⟩ := (get?_existsByOwner_iff h).mp hget
      obtain rfl : q = p := eq_of_predId h.ids hq hp hid
      have htypes := h.types
      rw [hsplit, List.map_append, List.map_cons, List.nodup_append] at htypes
      have htype : e.entityType = e'.entityType := Option.some.inj (howner.symm.trans hqowner)
      exact (List.nodup_cons.mp htypes.2.1).1 (htype ▸ List.mem_map_of_mem he')
  · obtain ⟨before, after, hpreds, hafter⟩ := split_view h.ids hp
    exact ⟨before, p.view, after, hpreds, rfl, hexists, hafter⟩

/-- The rows of an existence predicate whose owner is declared. -/
theorem get?_exists (h : Indexed doc index) {views : List (String × List Fact)}
    (hviews : projectViewFacts host r doc.view = .ok views) {e : EntityDoc}
    (he : e ∈ doc.entities) {p : PredicateDoc} (hp : p ∈ doc.predicates)
    (hexists : p.isEntityExists = true) (howner : p.ownerType = some e.entityType) :
    ∃ rows, entityRows host r doc.view.ownerIndex (some e.view) = .ok (some (p.predId, rows)) ∧
      Dict.get? views p.predId = some (sortByFact host id (rows.map Prod.fst)) :=
  view_of_exists (declaresExists h he hp hexists howner) hviews

/-- The projection has no other predicates. -/
theorem get?_unknown {views : List (String × List Fact)}
    (hviews : projectViewFacts host r doc.view = .ok views) {id : String}
    (hid : id ∉ doc.predicates.map (·.predId)) : Dict.get? views id = none := by
  rw [projectViewFacts_eq] at hviews
  obtain ⟨virtualExists, _, hviews⟩ := bind_ok_iff.mp hviews
  obtain ⟨kvs, hkvs, hviews⟩ := bind_ok_iff.mp hviews
  cases hviews
  rw [Dict.get?_eq_none_iff, Dict.mem_keys_update, not_or]
  refine ⟨?_, by simp [Dict.keys]⟩
  intro hkey
  obtain ⟨kv, hkv, rfl⟩ := List.mem_map.mp hkey
  obtain ⟨v, hv, hproject⟩ := mem_of_mapOk hkvs hkv
  obtain ⟨p, hp, rfl⟩ := List.mem_map.mp hv
  have hkeyOf : p.view.predId = some kv.1 := projectPredicate_key hproject
  exact hid (List.mem_map.mpr ⟨p, hp, Option.some.inj hkeyOf⟩)

end FactGraph.Schema
