import Mathlib.Logic.Relation
import FactGraph.Schema.Extension
import FactGraph.Schema.Projection

/-!
# Extensions are conservative

A ledger written under a schema has the same projection under an extension of it, as far as the
predicates of the old schema go. The projector reads of a predicate what the validator keeps stable,
and of an entity its identity fields; a predicate that only the extension has finds no claims.

Documents that the schema compiler writes satisfy the two conditions of the result: the index can be
built of them, and a type that owns an existence predicate or an identity predicate is declared.
-/

namespace FactGraph.Schema

open Entity Store Check View

/-- Every claim of the ledger is one of a predicate of the document. -/
def WrittenUnder (l : Ledger) (doc : SchemaDoc) : Prop :=
  ∀ predId, predId ∉ predIds doc → l.findClaims (some predId) none = []

/-- The owners of existence and identity predicates are declared. -/
def OwnersDeclared (doc : SchemaDoc) : Prop :=
  ∀ p ∈ doc.predicates, p.isEntityExists = true ∨ p.isIdentityField = true →
    ∀ owner, p.ownerType = some owner → owner ∈ types doc

/-- The second projection, restricted to the predicates of a document, is the first. -/
def RestrictsTo (wide : List (String × List Fact)) (doc : SchemaDoc)
    (narrow : List (String × List Fact)) : Prop :=
  ∀ predId, Dict.get? narrow predId =
    if predId ∈ predIds doc then Dict.get? wide predId else none

/-! ## What an extension keeps -/

/-- What is stable is what the projector reads. -/
theorem view_of_stable {p q : PredicateDoc}
    (h : predicateStableProjection p = predicateStableProjection q) : p.view = q.view := by
  have hid : p.predId = q.predId := congrArg StableProjection.predId h
  have hcard : p.cardinality = q.cardinality := congrArg StableProjection.cardinality h
  have hexists : p.entityExists = q.entityExists := congrArg StableProjection.isEntityExists h
  have hidentity : p.identityField = q.identityField := congrArg StableProjection.isIdentityField h
  have howner : p.ownerType = q.ownerType := congrArg StableProjection.ownerType h
  have hfield : p.pyFieldName = q.pyFieldName := congrArg StableProjection.pyFieldName h
  have hgroup : p.groupKeyIndexes = q.groupKeyIndexes := congrArg StableProjection.groupKeyIndexes h
  unfold PredicateDoc.view PredicateDoc.isEntityExists PredicateDoc.isIdentityField
  rw [hid, hcard, hexists, hidentity, howner, hfield, hgroup]

variable {a b : SchemaDoc} {ia ib : SchemaIndex}

/-- A predicate of the old schema is read alike in the new one. -/
theorem Extends.kept (h : Extends a b) (ha : Indexed a ia) {p : PredicateDoc}
    (hp : p ∈ a.predicates) : ∃ q ∈ b.predicates, p.view = q.view := by
  obtain ⟨q, hq, hstable⟩ := h.existing p.predId p ((get?_byId_iff ha.ids).mpr ⟨hp, rfl⟩)
  exact ⟨q, hq, view_of_stable hstable⟩

/-- A predicate of the new schema under an old id is an old one. -/
theorem Extends.old (h : Extends a b) (ha : Indexed a ia) {q : PredicateDoc}
    (hq : q ∈ b.predicates) (hid : q.predId ∈ predIds a) : ∃ p ∈ a.predicates, p.view = q.view := by
  obtain ⟨p, hp, hpid⟩ := List.mem_map.mp hid
  obtain ⟨q', hq', hview⟩ := h.kept ha hp
  have hid' : q'.predId = q.predId := (Option.some.inj (congrArg SchemaPred.predId hview)).symm.trans hpid
  rw [← eq_of_predId h.ids hq' hq hid']
  exact ⟨p, hp, hview⟩

/-- An old entity type gets no new existence or identity predicate. -/
theorem Extends.old_of_owner (h : Extends a b) {q : PredicateDoc} (hq : q ∈ b.predicates)
    {owner : String} (howner : q.ownerType = some owner) (hold : owner ∈ types a)
    (hanchor : q.isEntityExists = true ∨ q.isIdentityField = true) : q.predId ∈ predIds a := by
  by_contra hnew
  obtain ⟨owner', howner', _, hcase⟩ := h.added q hq hnew
  cases howner.symm.trans howner'
  rcases hcase with ⟨_, hout⟩ | ⟨_, hidentity, hexists, _⟩
  · exact hout hold
  · rcases hanchor with hanchor | hanchor
    · exact hexists (PredicateDoc.isEntityExists_iff.mp hanchor)
    · exact hidentity (PredicateDoc.isIdentityField_iff.mp hanchor)

/-- The existence predicate of an old entity type is the same. -/
theorem existsByOwner_of_extends (h : Extends a b) (ha : Indexed a ia) (hb : Indexed b ib)
    {owner : String} (hold : owner ∈ types a) :
    Dict.get? b.view.ownerIndex.existsByOwner owner =
      Dict.get? a.view.ownerIndex.existsByOwner owner := by
  apply Option.ext
  intro id
  rw [get?_existsByOwner_iff ha, get?_existsByOwner_iff hb]
  constructor
  · rintro ⟨q, hq, hexists, howner, rfl⟩
    obtain ⟨p, hp, hview⟩ := h.old ha hq (h.old_of_owner hq howner hold (.inl hexists))
    have hpe : p.isEntityExists = q.isEntityExists := congrArg SchemaPred.isEntityExists hview
    have hpo : p.ownerType = q.ownerType := congrArg SchemaPred.ownerType hview
    have hpid : p.predId = q.predId := Option.some.inj (congrArg SchemaPred.predId hview)
    exact ⟨p, hp, hpe.trans hexists, hpo.trans howner, hpid⟩
  · rintro ⟨p, hp, hexists, howner, rfl⟩
    obtain ⟨q, hq, hview⟩ := h.kept ha hp
    have hpe : p.isEntityExists = q.isEntityExists := congrArg SchemaPred.isEntityExists hview
    have hpo : p.ownerType = q.ownerType := congrArg SchemaPred.ownerType hview
    have hpid : p.predId = q.predId := Option.some.inj (congrArg SchemaPred.predId hview)
    exact ⟨q, hq, hpe ▸ hexists, hpo ▸ howner, hpid.symm⟩

/-- The identity predicates of an old entity type are read alike. -/
theorem byOwnerField_of_extends (h : Extends a b) (ha : Indexed a ia) (hb : Indexed b ib)
    {owner : String} (hold : owner ∈ types a) (field : String) :
    Dict.get? b.view.ownerIndex.byOwnerField (owner, field) =
      Dict.get? a.view.ownerIndex.byOwnerField (owner, field) := by
  apply Option.ext
  intro v
  rw [get?_byOwnerField_iff ha, get?_byOwnerField_iff hb]
  constructor
  · rintro ⟨q, hq, hidentity, howner, hfield, hne, rfl⟩
    obtain ⟨p, hp, hview⟩ := h.old ha hq (h.old_of_owner hq howner hold (.inr hidentity))
    have hpi : p.isIdentityField = q.isIdentityField := congrArg SchemaPred.isIdentityField hview
    have hpo : p.ownerType = q.ownerType := congrArg SchemaPred.ownerType hview
    have hpf : p.pyFieldName = q.pyFieldName := congrArg SchemaPred.pyFieldName hview
    exact ⟨p, hp, hpi.trans hidentity, hpo.trans howner, hpf.trans hfield, hne, hview⟩
  · rintro ⟨p, hp, hidentity, howner, hfield, hne, rfl⟩
    obtain ⟨q, hq, hview⟩ := h.kept ha hp
    have hpi : p.isIdentityField = q.isIdentityField := congrArg SchemaPred.isIdentityField hview
    have hpo : p.ownerType = q.ownerType := congrArg SchemaPred.ownerType hview
    have hpf : p.pyFieldName = q.pyFieldName := congrArg SchemaPred.pyFieldName hview
    exact ⟨q, hq, hpi ▸ hidentity, hpo ▸ howner, hpf ▸ hfield, hne, hview.symm⟩

/-! ## Rows of old entities and predicates -/

variable {host : View.Host} {r : LedgerReads}

/-- The rows of an entity type depend on its own predicates. -/
theorem entityRows_congr {ix ix' : OwnerIndex} {t : String}
    (hexists : Dict.get? ix.existsByOwner t = Dict.get? ix'.existsByOwner t)
    (hidentity : ∀ field, Dict.get? ix.byOwnerField (t, field) =
      Dict.get? ix'.byOwnerField (t, field)) (fields : List (Option IdentityField)) :
    entityRows host r ix (some ⟨some t, some fields⟩) =
      entityRows host r ix' (some ⟨some t, some fields⟩) := by
  have hselect : selectIdentityField r ix t = selectIdentityField r ix' t := by
    funext field
    unfold selectIdentityField
    split
    · rfl
    · rw [hidentity]
    · rfl
  unfold entityRows
  dsimp only
  rw [hexists, hselect]

/-- An old entity has the same rows under the extension. -/
theorem entityRows_of_extends (h : Extends a b) (ha : Indexed a ia) (hb : Indexed b ib)
    {e : EntityDoc} (he : e ∈ a.entities) :
    entityRows host r b.view.ownerIndex (some e.view) =
      entityRows host r a.view.ownerIndex (some e.view) := by
  have hold : e.entityType ∈ types a := List.mem_map_of_mem he
  exact entityRows_congr (existsByOwner_of_extends h ha hb hold)
    (byOwnerField_of_extends h ha hb hold) _

/-- An entity of the extension under an old type is an old one. -/
theorem Extends.old_entity (h : Extends a b) (hb : Indexed b ib) {e' : EntityDoc}
    (he' : e' ∈ b.entities) (hold : e'.entityType ∈ types a) :
    ∃ e ∈ a.entities, e.view = e'.view := by
  obtain ⟨e, he, htype⟩ := List.mem_map.mp hold
  obtain ⟨e'', he'', htype', hfields⟩ := h.entities e he
  obtain rfl : e'' = e' := List.inj_on_of_nodup_map hb.types he'' he' (htype'.trans htype)
  refine ⟨e, he, ?_⟩
  rw [EntityDoc.view, EntityDoc.view, htype, hfields]

theorem ordinaryRows_congr {p q : PredicateDoc} (h : p.view = q.view) :
    ordinaryRows r p = ordinaryRows r q := by
  have hid : p.predId = q.predId := Option.some.inj (congrArg SchemaPred.predId h)
  rw [ordinaryRows, ordinaryRows, h, hid]

/-! ## Entities and predicates of the extension alone -/

/-- A predicate without claims has no rows. -/
theorem selectActive_of_unwritten (ha : Indexed a ia) {p : PredicateDoc} (hp : p ∈ a.predicates)
    (hnone : r.findClaims p.predId = .ok []) : selectActive r p.view p.predId = .ok [] := by
  obtain ⟨_, cardinality, _, hcard, hvalid⟩ := ha.checked p hp
  have hactive : activeClaims r p.predId = .ok [] := by
    unfold activeClaims
    rw [hnone]
    rfl
  have hview : p.view.cardinality = cardinality := by simp [PredicateDoc.view, hcard]
  unfold selectActive
  rw [hactive, ok_bind, hview]
  rcases hvalid with rfl | rfl
  · have hchosen : computeChosenForPredicate r p.view = .ok [] := by
      unfold computeChosenForPredicate
      have hid : p.view.predId = some p.predId := rfl
      have hne : decide (p.predId ≠ "") = true := by simpa using ha.named p hp
      rw [hid, hview]
      simp only [require_of_true hne, ok_bind, hactive]
      rfl
    rw [hchosen]
    rfl
  · rfl

theorem ordinaryRows_of_unwritten (ha : Indexed a ia) {p : PredicateDoc} (hp : p ∈ a.predicates)
    (hnone : r.findClaims p.predId = .ok []) : ordinaryRows r p = .ok [] := by
  unfold ordinaryRows
  rw [selectActive_of_unwritten ha hp hnone]
  rfl

/-- An identity field whose predicate has no claims knows no entity. -/
theorem selectIdentityField_of_unwritten (ha : Indexed a ia) {p : PredicateDoc}
    (hp : p ∈ a.predicates) {t name domain : String}
    (hindex : Dict.get? a.view.ownerIndex.byOwnerField (t, name) = some p.view)
    (hnone : r.findClaims p.predId = .ok []) :
    selectIdentityField r a.view.ownerIndex t (some ⟨some name, some domain⟩) =
      .ok ⟨name, domain, []⟩ := by
  unfold selectIdentityField
  dsimp only
  rw [hindex]
  dsimp only
  unfold selectViewClaims
  rw [requirePredId_view (ha.named p hp), ok_bind, selectActive_of_unwritten ha hp hnone]
  rfl

/-- An entity type whose identity predicates have no claims can be read. -/
theorem entityRows_of_unwritten (ha : Indexed a ia) {e : EntityDoc} (he : e ∈ a.entities)
    (hnone : ∀ p ∈ a.predicates, p.isIdentityField = true → p.ownerType = some e.entityType →
      r.findClaims p.predId = .ok []) :
    ∃ rows, entityRows host r a.view.ownerIndex (some e.view) = .ok rows := by
  have hselect : ∀ f ∈ e.identityFields,
      selectIdentityField r a.view.ownerIndex e.entityType (some ⟨some f.name, some f.typeDomain⟩) =
        .ok ⟨f.name, f.typeDomain, []⟩ := by
    intro f hf
    obtain ⟨hne, p, hp, hidentity, howner, hfield⟩ := (ha.declared e he).identity f hf
    have hindex := (get?_byOwnerField_iff ha).mpr ⟨p, hp, hidentity, howner, hfield, hne, rfl⟩
    exact selectIdentityField_of_unwritten ha hp hindex (hnone p hp hidentity howner)
  have hfields : mapOk (selectIdentityField r a.view.ownerIndex e.entityType)
      (e.identityFields.map fun f => some ⟨some f.name, some f.typeDomain⟩) =
        .ok (e.identityFields.map fun f => ⟨f.name, f.typeDomain, []⟩) := by
    rw [mapOk_ok_iff, List.forall₂_map_left_iff, List.forall₂_map_right_iff, List.forall₂_same]
    exact hselect
  have hnobody : candidateRefs (e.identityFields.map fun f => ⟨f.name, f.typeDomain, []⟩) = [] := by
    cases e.identityFields with
    | nil => rfl
    | cons f fs => rfl
  unfold entityRows EntityDoc.view
  dsimp only
  cases Dict.get? a.view.ownerIndex.existsByOwner e.entityType with
  | none => exact ⟨none, rfl⟩
  | some predId =>
    dsimp only
    rw [hfields, ok_bind, hnobody]
    exact ⟨_, rfl⟩

/-! ## Conservativity -/

/-- **One extension.** -/
theorem Extends.conservative (h : Extends a b) (ha : Indexed a ia) (hb : Indexed b ib)
    (howners : OwnersDeclared a) {l : Ledger} (hl : WrittenUnder l a) :
    ((∃ wide, projectViewFacts host (reads l) b.view = .ok wide) ↔
      ∃ narrow, projectViewFacts host (reads l) a.view = .ok narrow) ∧
    ∀ wide narrow, projectViewFacts host (reads l) b.view = .ok wide →
      projectViewFacts host (reads l) a.view = .ok narrow → RestrictsTo wide a narrow := by
  have hunwritten : ∀ q ∈ b.predicates, q.predId ∉ predIds a →
      (reads l).findClaims q.predId = .ok [] := by
    intro q _ hnew
    exact congrArg Except.ok (hl q.predId hnew)
  refine ⟨?_, ?_⟩
  · rw [projects_iff ha, projects_iff hb]
    constructor
    · rintro ⟨hentities, hordinary⟩
      refine ⟨?_, ?_⟩
      · intro e he
        obtain ⟨e', he', htype, hfields⟩ := h.entities e he
        have hview : e.view = e'.view := by rw [EntityDoc.view, EntityDoc.view, htype, hfields]
        rw [← entityRows_of_extends h ha hb he, hview]
        exact hentities e' he'
      · intro p hp hplain
        obtain ⟨q, hq, hview⟩ := h.kept ha hp
        have hqe : p.isEntityExists = q.isEntityExists := congrArg SchemaPred.isEntityExists hview
        rw [ordinaryRows_congr hview]
        exact hordinary q hq (hqe ▸ hplain)
    · rintro ⟨hentities, hordinary⟩
      refine ⟨?_, ?_⟩
      · intro e' he'
        by_cases hold : e'.entityType ∈ types a
        · obtain ⟨e, he, hview⟩ := h.old_entity hb he' hold
          rw [← hview, entityRows_of_extends h ha hb he]
          exact hentities e he
        · -- no claim is about an entity type that is new
          apply entityRows_of_unwritten hb he'
          intro q hq hidentity howner
          apply hunwritten q hq
          intro hid
          obtain ⟨p, hp, hview⟩ := h.old ha hq hid
          have hpi : p.isIdentityField = q.isIdentityField :=
            congrArg SchemaPred.isIdentityField hview
          have hpo : p.ownerType = q.ownerType := congrArg SchemaPred.ownerType hview
          exact hold (howners p hp (.inr (hpi.trans hidentity)) _ (hpo.trans howner))
      · intro q hq hplain
        by_cases hid : q.predId ∈ predIds a
        · obtain ⟨p, hp, hview⟩ := h.old ha hq hid
          have hpe : p.isEntityExists = q.isEntityExists := congrArg SchemaPred.isEntityExists hview
          rw [← ordinaryRows_congr hview]
          exact hordinary p hp (hpe.trans hplain)
        · exact ⟨[], ordinaryRows_of_unwritten hb hq (hunwritten q hq hid)⟩
  · intro wide narrow hwide hnarrow predId
    by_cases hold : predId ∈ predIds a
    · rw [if_pos hold]
      obtain ⟨p, hp, rfl⟩ := List.mem_map.mp hold
      obtain ⟨q, hq, hview⟩ := h.kept ha hp
      have hid : p.predId = q.predId := Option.some.inj (congrArg SchemaPred.predId hview)
      have hqe : p.isEntityExists = q.isEntityExists := congrArg SchemaPred.isEntityExists hview
      have hqo : p.ownerType = q.ownerType := congrArg SchemaPred.ownerType hview
      by_cases hexists : p.isEntityExists = true
      · obtain ⟨owner, _, howner, _⟩ := ha.checked p hp
        obtain ⟨e, he, rfl⟩ := List.mem_map.mp (howners p hp (.inl hexists) owner howner)
        obtain ⟨e', he', htype, hfields⟩ := h.entities e he
        have hview' : e.view = e'.view := by rw [EntityDoc.view, EntityDoc.view, htype, hfields]
        obtain ⟨rows, hrows, hget⟩ := get?_exists ha hnarrow he hp hexists howner
        obtain ⟨rows', hrows', hget'⟩ := get?_exists hb hwide he' hq (hqe ▸ hexists)
          (htype ▸ hqo ▸ howner)
        rw [← hview', entityRows_of_extends h ha hb he, hrows, Except.ok.injEq, Option.some.injEq,
          Prod.mk.injEq] at hrows'
        rw [hget, hid, hget', hrows'.2]
      · have hplain : p.isEntityExists = false := by simpa using hexists
        obtain ⟨facts, hfacts, hget⟩ := get?_ordinary ha hnarrow hp hplain
        obtain ⟨facts', hfacts', hget'⟩ := get?_ordinary hb hwide hq (hqe ▸ hplain)
        rw [← ordinaryRows_congr hview, hfacts, Except.ok.injEq] at hfacts'
        rw [hget, hid, hget', hfacts']
    · rw [if_neg hold]
      exact get?_unknown hnarrow hold

/-- **Chains of extensions.** A schema at the end of a chain is accepted over the one at its start;
and between two schemas of which the index can be built, where the first declares the owners of its
existence and identity predicates, what was written under the first is projected alike. -/
theorem projection_of_extension (host : Entity.Host) :
    (∀ a b, Relation.TransGen Accepts a b → Accepts a b) ∧
    ∀ a b ia ib, buildSchemaIndex host a = .ok ia → buildSchemaIndex host b = .ok ib →
      OwnersDeclared a → Accepts a b → ∀ l, WrittenUnder l a →
        ((∃ wide, projectViewFacts host.view (reads l) b.view = .ok wide) ↔
          ∃ narrow, projectViewFacts host.view (reads l) a.view = .ok narrow) ∧
        ∀ wide narrow, projectViewFacts host.view (reads l) b.view = .ok wide →
          projectViewFacts host.view (reads l) a.view = .ok narrow → RestrictsTo wide a narrow := by
  refine ⟨?_, ?_⟩
  · intro a b hchain
    induction hchain with
    | single h => exact h
    | tail _ h ih => exact ih.trans h
  · intro a b ia ib ha hb howners haccepts l hl
    exact (accepts_iff.mp haccepts).2.2.conservative (indexed_of_build ha) (indexed_of_build hb)
      howners hl

/-! ## Documents with a number -/

/-- A host that names documents by number. -/
def docHost : Entity.Host where
  db :=
    { sha256 := View.docHost.sha256
      shake256 := fun _ => .empty
      floatRepr := fun _ => "" }
  str := View.docHost.str
  reprValue := fun _ => ""
  reprText := fun s => s
  fullmatch := fun _ _ => .ok true

/-- The existence predicate of documents. -/
def docExists : PredicateDoc where
  predId := "Doc:exists"
  ownerType := some "Doc"
  cardinality := some "single"
  argSpecs := [⟨"doc", "entity_ref"⟩]
  groupKeyIndexes := [0]
  entityExists := some true

/-- A field of documents. -/
def docField (name domain cardinality : String) (identity : Option Bool) : PredicateDoc where
  predId := "Doc:" ++ name
  ownerType := some "Doc"
  pyFieldName := some name
  cardinality := some cardinality
  argSpecs := [⟨"doc", "entity_ref"⟩, ⟨name, domain⟩]
  groupKeyIndexes := [0]
  identityField := identity

def docEntity : EntityDoc := ⟨"Doc", [{ name := "number", typeDomain := "int" }]⟩

/-- Documents with a number, and further fields. -/
def numbered (more : List PredicateDoc) : SchemaDoc where
  entities := [docEntity]
  predicates := docExists :: docField "number" "int" "single" (some true) :: more

/-- The same predicates, without a declaration of their owner. -/
def undeclared : SchemaDoc where
  entities := []
  predicates := (numbered []).predicates

/-- The ledger with the document number 7. -/
def sevenLedger : Ledger := docLedger "number" numberRef ("int", .leaf (.int 7))

/-- A run of the validator. -/
theorem accepts_of_run {a b : SchemaDoc}
    (h : (validateAdditiveSchemaExtension a b).toOption.isSome = true) : Accepts a b := by
  unfold Accepts
  cases hrun : validateAdditiveSchemaExtension a b with
  | error e =>
    rw [hrun] at h
    cases h
  | ok u => rfl

theorem sevenLedger_written {doc : SchemaDoc} (h : "Doc:number" ∈ predIds doc) :
    WrittenUnder sevenLedger doc := by
  intro predId hpred
  have hne : predId ≠ "Doc:number" := fun he => hpred (he ▸ h)
  have hbuckets : sevenLedger.indexes.claimsByPredId =
      [("Doc:number", [docClaim "number" numberRef ("int", .leaf (.int 7))])] := by rfl
  show Buckets.get sevenLedger.indexes.claimsByPredId predId = []
  rw [hbuckets]
  simp [Buckets.get, Dict.get?, hne]

/-- **An extension may declare the owner of old predicates**, whose entities then appear; **and it may
add a predicate of a cardinality that cannot be projected**. -/
theorem extension_not_conservative :
    (∃ wide narrow, Accepts undeclared (numbered []) ∧ WrittenUnder sevenLedger undeclared ∧
      projectViewFacts docHost.view (reads sevenLedger) (numbered []).view = .ok wide ∧
      projectViewFacts docHost.view (reads sevenLedger) undeclared.view = .ok narrow ∧
      ¬ RestrictsTo wide undeclared narrow) ∧
    (Accepts (numbered []) (numbered [docField "title" "string" "many" none]) ∧
      WrittenUnder sevenLedger (numbered []) ∧
      (∃ narrow, projectViewFacts docHost.view (reads sevenLedger) (numbered []).view = .ok narrow) ∧
      ¬ ∃ wide, projectViewFacts docHost.view (reads sevenLedger)
        (numbered [docField "title" "string" "many" none]).view = .ok wide) := by
  have hviews : projectViewFacts docHost.view (reads sevenLedger) (numbered []).view =
      .ok [("Doc:exists", [[.str numberRef]]), ("Doc:number", [[.str numberRef, .int 7]])] := by
    decide +kernel
  refine ⟨⟨_, [("Doc:exists", []), ("Doc:number", [[.str numberRef, .int 7]])], ?_, ?_, hviews, ?_, ?_⟩,
    ?_, ?_, ⟨_, hviews⟩, ?_⟩
  · exact accepts_of_run (by rfl)
  · exact sevenLedger_written (by decide)
  · rfl
  · intro hrestricts
    exact absurd (hrestricts "Doc:exists") (by decide +kernel)
  · exact accepts_of_run (by rfl)
  · exact sevenLedger_written (by decide)
  · rintro ⟨wide, hwide⟩
    have hfails : (projectViewFacts docHost.view (reads sevenLedger)
        (numbered [docField "title" "string" "many" none]).view).toOption = none := by decide +kernel
    rw [hwide] at hfails
    cases hfails

/-- Documents with a number may get a title and then tags, and the document number 7 stays. -/
theorem numbered_conservative :
    Accepts (numbered []) (numbered
      [docField "title" "string" "single" none, docField "tag" "string" "multi" none]) ∧
    ∀ wide narrow, projectViewFacts docHost.view (reads sevenLedger) (numbered
        [docField "title" "string" "single" none, docField "tag" "string" "multi" none]).view =
          .ok wide →
      projectViewFacts docHost.view (reads sevenLedger) (numbered []).view = .ok narrow →
        RestrictsTo wide (numbered []) narrow := by
  have hfirst : Accepts (numbered []) (numbered [docField "title" "string" "single" none]) := by
    exact accepts_of_run (by rfl)
  have hsecond : Accepts (numbered [docField "title" "string" "single" none]) (numbered
      [docField "title" "string" "single" none, docField "tag" "string" "multi" none]) := by
    exact accepts_of_run (by rfl)
  obtain ⟨htrans, hproject⟩ := projection_of_extension docHost
  have hchain := htrans _ _ (.tail (.single hfirst) hsecond)
  refine ⟨hchain, ?_⟩
  obtain ⟨ia, ha, _⟩ := exists_ok_of_any (x := buildSchemaIndex docHost (numbered []))
    (p := fun _ => true) (by rfl)
  obtain ⟨ib, hb, _⟩ := exists_ok_of_any (x := buildSchemaIndex docHost (numbered
    [docField "title" "string" "single" none, docField "tag" "string" "multi" none]))
    (p := fun _ => true) (by rfl)
  have howners : OwnersDeclared (numbered []) := by
    intro p hp _ owner howner
    have hall : ∀ p ∈ (numbered []).predicates, p.ownerType = some "Doc" := by decide
    rw [hall p hp] at howner
    cases howner
    decide
  exact (hproject _ _ ia ib ha hb howners hchain _ (sevenLedger_written (by decide))).2

end FactGraph.Schema
