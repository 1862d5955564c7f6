import Mathlib.Data.List.ReduceOption
import FactGraph.View.References
import FactGraph.View.Witness

/-!
# The existence view

An entity has a row in the view of its existence predicate if the projector finds every identity
field among its selected claims and the cells it finds spell the reference (`mem_existsRows`). By its
docstring the row stands for a complete identity bundle, that is, for values that spell the
reference. That is so exactly when no reference that the values or the cells spell has an illegible
cell (`existsView_spelledByValues_iff`).
-/

namespace FactGraph.View

open Protocol Store Check

/-! ## The terms of an entity -/

/-- The claim that `values` ends with for an entity: the last of its selected claims. -/
def lastFor (selected : List Claim) (eRef : String) : Option Claim :=
  (selected.filter fun c => c.eRef = eRef).getLast?

/-- The term is the one of the selected claim of the entity for the identity field. -/
structure Carries (r : LedgerReads) (ix : OwnerIndex) (entityType eRef : String)
    (field : Option IdentityField) (v : Carried) : Prop where
  declared : field = some ⟨some v.name, some v.domain⟩
  chosen : ∃ pred selected claim, Dict.get? ix.byOwnerField (entityType, v.name) = some pred ∧
    selectViewClaims r pred = .ok selected ∧ lastFor selected eRef = some claim ∧
    claim.restTerms = [v.term]

/-- The terms of the selected claims of an entity, one for every identity field. -/
def Bundle (r : LedgerReads) (ix : OwnerIndex) (entityType eRef : String)
    (fields : List (Option IdentityField)) (vs : List Carried) : Prop :=
  List.Forall₂ (Carries r ix entityType eRef) fields vs

variable {r : LedgerReads} {ix : OwnerIndex} {entityType eRef : String}

theorem Carried.ext_of_term {v w : Carried} (hname : v.name = w.name)
    (hdomain : v.domain = w.domain) (hterm : v.term = w.term) : v = w := by
  obtain ⟨n, d, t, a, ha⟩ := v
  obtain ⟨n', d', t', a', ha'⟩ := w
  simp only at hname hdomain hterm
  subst hname hdomain hterm
  obtain rfl : a = a' := Except.ok.inj (ha.symm.trans ha')
  rfl

theorem Carries.unique {field : Option IdentityField} {v w : Carried}
    (hv : Carries r ix entityType eRef field v) (hw : Carries r ix entityType eRef field w) :
    v = w := by
  have hfield := hv.declared.symm.trans hw.declared
  simp only [Option.some.injEq, IdentityField.mk.injEq] at hfield
  obtain ⟨hname, hdomain⟩ := hfield
  obtain ⟨pred, selected, claim, hpred, hselected, hclaim, hterm⟩ := hv.chosen
  obtain ⟨pred', selected', claim', hpred', hselected', hclaim', hterm'⟩ := hw.chosen
  rw [← hname, hpred, Option.some.injEq] at hpred'
  subst hpred'
  obtain rfl : selected = selected' := Except.ok.inj (hselected.symm.trans hselected')
  obtain rfl : claim = claim' := Option.some.inj (hclaim.symm.trans hclaim')
  exact Carried.ext_of_term hname hdomain (List.singleton_inj.mp (hterm.symm.trans hterm'))

theorem Bundle.unique {fields : List (Option IdentityField)} {vs ws : List Carried}
    (hv : Bundle r ix entityType eRef fields vs) (hw : Bundle r ix entityType eRef fields ws) :
    vs = ws := by
  induction hv generalizing ws with
  | nil => cases hw; rfl
  | cons h _ ih =>
    cases hw with
    | cons h' hw => rw [h.unique h', ih hw]

/-! ## The values of a field -/

theorem Ledger.Sound.findClaimArgs_of_mem {l : Ledger} (hl : l.Sound) {c : Claim}
    (hc : c ∈ l.indexes.claims) : l.findClaimArgs c.asrtId = argsOf c := by
  have hseq := sequenced_of_sound hl
  have honly : (l.indexes.claims.filter fun d => d.asrtId = c.asrtId) = [c] := by
    have hmem : ∀ d ∈ l.indexes.claims.filter (fun d => d.asrtId = c.asrtId), d = c := by
      intro d hd
      obtain ⟨hd, hid⟩ := List.mem_filter.mp hd
      exact hseq.inj hd hc (by simpa using hid)
    have hnodup := hseq.nodup.filter fun d => d.asrtId = c.asrtId
    have hself : c ∈ l.indexes.claims.filter (fun d => d.asrtId = c.asrtId) :=
      List.mem_filter.mpr ⟨hc, by simp⟩
    generalize l.indexes.claims.filter (fun d => d.asrtId = c.asrtId) = ds at hmem hnodup hself
    match ds with
    | [] => cases hself
    | [d] => rw [hmem d List.mem_cons_self]
    | d :: e :: _ =>
      have hde : d = e := (hmem d (by simp)).trans (hmem e (by simp)).symm
      exact absurd hde (by simp at hnodup; exact hnodup.1.1)
  rw [hl.findClaimArgs, honly]
  simp

/-- A claim with a row of two cells has one term, and the second cell is its cell. -/
theorem term_of_buildArgs {l : Ledger} (hl : l.Sound) {c : Claim} (hc : c ∈ l.indexes.claims)
    {x value : Rules.Value} (h : buildArgsForClaim (reads l) c = .ok [x, value]) :
    ∃ t, c.restTerms = [t] ∧ valAtomForClaimArg t.1 t.2 = .ok value := by
  unfold buildArgsForClaim at h
  have hargs : (reads l).findClaimArgs c.asrtId = .ok (argsOf c) :=
    congrArg Except.ok (Ledger.Sound.findClaimArgs_of_mem hl hc)
  rw [hargs] at h
  simp only [ok_bind] at h
  split at h
  · obtain ⟨_, h⟩ := bind_unit_ok_iff.mp h
    cases h
  · obtain ⟨hlen, h⟩ := bind_unit_ok_iff.mp h
    obtain ⟨_, h⟩ := bind_unit_ok_iff.mp h
    have hcells := (List.cons.inj (Except.ok.inj h)).2
    have hone : (sortArgs (argsOf c)).length = 1 := by
      simpa using congrArg List.length hcells
    obtain ⟨t, ht⟩ : ∃ t, c.restTerms = [t] := by
      have hcount := of_decide_eq_true (require_ok_iff.mp hlen)
      exact List.length_eq_one_iff.mp (hcount.symm.trans hone)
    refine ⟨t, ht, ?_⟩
    obtain ⟨tag, v⟩ := t
    unfold argsOf claimArgsFromRestTerms claimArgsFrom at hcells hone
    rw [ht] at hcells hone
    cases hcell : valAtomForClaimArg tag v with
    | error e => simp [hcell, sortArgs] at hone
    | ok atom =>
      simp [hcell, claimArgsFrom, Indexes.argRows, sortArgs] at hcells
      rw [hcells]

/-- The value and the claim `values` holds for a claim. -/
def valueOf (r : LedgerReads) (c : Claim) : Rules.Value × String :=
  (match buildArgsForClaim r c with
    | .ok [_, value] => value
    | _ => .none, c.asrtId)

/-- One turn of the loop over the claims of an identity predicate. -/
def valueStep (r : LedgerReads) (pred : SchemaPred) (values : List (String × Rules.Value × String))
    (claim : Claim) : Except StoreErr (List (String × Rules.Value × String)) := do
  let fact ← buildArgsForClaim r claim
  match fact with
  | [_, value] => .ok (Dict.set values claim.eRef (value, claim.asrtId))
  | _ => .error (.viewProjection
      ("identity predicate " ++ pred.predId.getD "" ++ " must be binary"))

theorem valueStep_ok {pred : SchemaPred} {values values' : List (String × Rules.Value × String)}
    {c : Claim} (h : valueStep r pred values c = .ok values') :
    (∃ x, buildArgsForClaim r c = .ok [x, (valueOf r c).1]) ∧
      values' = Dict.set values c.eRef (valueOf r c) := by
  unfold valueStep at h
  obtain ⟨fact, hfact, h⟩ := bind_ok_iff.mp h
  split at h
  · cases h
    unfold valueOf
    rw [hfact]
    exact ⟨⟨_, rfl⟩, rfl⟩
  · cases h

/-- What the loop leaves for an entity: the value of its last claim. -/
theorem valueSteps_ok {p : SchemaPred} {claims : List Claim}
    {values values' : List (String × Rules.Value × String)}
    (h : claims.foldlM (valueStep r p) values = .ok values') :
    (∀ c ∈ claims, ∃ x, buildArgsForClaim r c = .ok [x, (valueOf r c).1]) ∧
      ∀ e, Dict.get? values' e =
        ((lastFor claims e).map (valueOf r)).or (Dict.get? values e) := by
  induction claims generalizing values with
  | nil =>
    cases h
    simp [lastFor]
  | cons c claims ih =>
    rw [List.foldlM_cons] at h
    obtain ⟨values₁, hstep, h⟩ := bind_ok_iff.mp h
    obtain ⟨hc, rfl⟩ := valueStep_ok hstep
    obtain ⟨hall, hget⟩ := ih h
    refine ⟨?_, ?_⟩
    · intro d hd
      rcases List.mem_cons.mp hd with rfl | hd
      · exact hc
      · exact hall d hd
    · intro e
      rw [hget e]
      unfold lastFor
      by_cases he : c.eRef = e
      · subst he
        rw [Dict.get?_set_self, List.filter_cons_of_pos (by simp), List.getLast?_cons]
        cases (claims.filter fun d => d.eRef = c.eRef).getLast? <;> rfl
      · rw [Dict.get?_set_of_ne (Ne.symm he), List.filter_cons_of_neg (by simpa using he)]

/-- What `selectIdentityField` returns. -/
structure Selected (r : LedgerReads) (ix : OwnerIndex) (entityType : String)
    (field : Option IdentityField) (f : SelectedField) : Prop where
  declared : field = some ⟨some f.name, some f.typeDomain⟩
  values : ∃ pred selected, Dict.get? ix.byOwnerField (entityType, f.name) = some pred ∧
    selectViewClaims r pred = .ok selected ∧
    (∀ c ∈ selected, ∃ x, buildArgsForClaim r c = .ok [x, (valueOf r c).1]) ∧
    ∀ e, Dict.get? f.values e = (lastFor selected e).map (valueOf r)

theorem selected_of_selectIdentityField {field : Option IdentityField} {f : SelectedField}
    (h : selectIdentityField r ix entityType field = .ok f) :
    Selected r ix entityType field f := by
  unfold selectIdentityField at h
  split at h
  · cases h
  · split at h
    · cases h
    · rename_i name domain pred hpred
      obtain ⟨selected, hselected, h⟩ := bind_ok_iff.mp h
      obtain ⟨values, hvalues, h⟩ := bind_ok_iff.mp h
      cases h
      obtain ⟨hall, hget⟩ := valueSteps_ok (r := r) (p := pred) hvalues
      exact ⟨rfl, pred, selected, hpred, hselected, hall, fun e => by simpa using hget e⟩
  · cases h

/-- The claims a selection keeps are claims of the ledger. -/
theorem mem_of_selectViewClaims {l : Ledger} (hl : l.Sound) {pred : SchemaPred}
    {selected : List Claim} (h : selectViewClaims (reads l) pred = .ok selected) :
    selected ⊆ l.indexes.claims := by
  unfold selectViewClaims at h
  obtain ⟨predId, _, h⟩ := bind_ok_iff.mp h
  obtain ⟨active, hactive, hsub⟩ := selectActive_subset h
  rw [activeClaims_of_sound hl] at hactive
  obtain rfl := Except.ok.inj hactive
  exact fun c hc => (mem_activeOf.mp (hsub hc)).1

theorem mem_of_lastFor {claims : List Claim} {e : String} {c : Claim}
    (h : lastFor claims e = some c) : c ∈ claims ∧ c.eRef = e := by
  have hmem := List.mem_of_getLast? h
  exact ⟨(List.mem_filter.mp hmem).1, by simpa using (List.mem_filter.mp hmem).2⟩

variable {l : Ledger}

/-- The value a field holds for an entity is the cell of the term the entity carries there. -/
theorem Selected.get?_iff (hl : l.Sound) {field : Option IdentityField} {f : SelectedField}
    (hf : Selected (reads l) ix entityType field f) (p : Rules.Value × String) :
    Dict.get? f.values eRef = some p →
      ∃ v, Carries (reads l) ix entityType eRef field v ∧ v.name = f.name ∧
        v.domain = f.typeDomain ∧ v.cell = p.1 := by
  obtain ⟨pred, selected, hpred, hselected, hall, hget⟩ := hf.values
  rw [hget eRef]
  intro h
  cases hlast : lastFor selected eRef with
  | none => simp [hlast] at h
  | some c =>
    rw [hlast] at h
    obtain rfl := Option.some.inj h
    obtain ⟨hc, _⟩ := mem_of_lastFor hlast
    obtain ⟨x, hx⟩ := hall c hc
    obtain ⟨t, ht, hcell⟩ := term_of_buildArgs hl (mem_of_selectViewClaims hl hselected hc) hx
    exact ⟨⟨f.name, f.typeDomain, t, (valueOf (reads l) c).1, hcell⟩,
      ⟨hf.declared, pred, selected, c, hpred, hselected, hlast, ht⟩, rfl, rfl, rfl⟩

/-- An entity that carries a term of a field has a value there. -/
theorem Selected.has_of_carries {field : Option IdentityField} {f : SelectedField}
    (hf : Selected (reads l) ix entityType field f) {v : Carried}
    (hv : Carries (reads l) ix entityType eRef field v) :
    ∃ p, Dict.get? f.values eRef = some p := by
  obtain ⟨pred, selected, hpred, hselected, _, hget⟩ := hf.values
  obtain ⟨pred', selected', c, hpred', hselected', hlast, _⟩ := hv.chosen
  have hfield := hf.declared.symm.trans hv.declared
  simp only [Option.some.injEq, IdentityField.mk.injEq] at hfield
  rw [← hfield.1, hpred, Option.some.injEq] at hpred'
  subst hpred'
  obtain rfl : selected = selected' := Except.ok.inj (hselected.symm.trans hselected')
  exact ⟨valueOf (reads l) c, by rw [hget, hlast]; rfl⟩

/-- The fields know an entity if it carries a term of each, and hold the cells of these terms. -/
theorem bundle_of_selected (hl : l.Sound) {fields : List (Option IdentityField)}
    {fs : List SelectedField}
    (hfs : List.Forall₂ (Selected (reads l) ix entityType) fields fs)
    (hall : ∀ f ∈ fs, ∃ p, Dict.get? f.values eRef = some p) :
    ∃ vs, Bundle (reads l) ix entityType eRef fields vs ∧
      fs.map (fun f => (f.name, f.typeDomain,
        datumOf ((Dict.get? f.values eRef).getD (.none, "")).1)) = vs.map Carried.atom := by
  induction hfs with
  | nil => exact ⟨[], .nil, rfl⟩
  | cons hf _ ih =>
    obtain ⟨p, hp⟩ := hall _ List.mem_cons_self
    obtain ⟨v, hv, hname, hdomain, hcell⟩ := Selected.get?_iff hl hf p hp
    obtain ⟨vs, hvs, hmap⟩ := ih fun g hg => hall g (List.mem_cons_of_mem _ hg)
    refine ⟨v :: vs, .cons hv hvs, ?_⟩
    rw [List.map_cons, List.map_cons, hmap, hp]
    unfold Carried.atom
    rw [hname, hdomain, hcell]
    rfl

theorem selected_of_bundle {fields : List (Option IdentityField)} {fs : List SelectedField}
    (hfs : List.Forall₂ (Selected (reads l) ix entityType) fields fs) {vs : List Carried}
    (hvs : Bundle (reads l) ix entityType eRef fields vs) :
    ∀ f ∈ fs, ∃ p, Dict.get? f.values eRef = some p := by
  induction hfs generalizing vs with
  | nil => simp
  | cons hf _ ih =>
    cases hvs with
    | cons hv hvs =>
      intro g hg
      rcases List.mem_cons.mp hg with rfl | hg
      · exact Selected.has_of_carries hf hv
      · exact ih hvs g hg

theorem mem_candidateRefs {fs : List SelectedField} {e : String} :
    e ∈ candidateRefs fs ↔ fs ≠ [] ∧ ∀ f ∈ fs, ∃ p, Dict.get? f.values e = some p := by
  unfold candidateRefs
  cases fs with
  | nil => simp
  | cons f fs =>
    simp only [List.mem_insertionSort, List.mem_filter, List.all_eq_true, Dict.has_iff,
      Dict.mem_keys_iff, ne_eq, List.cons_ne_nil, not_false_eq_true, true_and, List.mem_cons,
      forall_eq_or_imp]

/-- The row of a candidate whose cells spell its reference. -/
theorem existsRow_ok {host : Host} {fs : List SelectedField} {e : String}
    {row : Option (Fact × List String)} (h : existsRow host entityType fs e = .ok row) (fact : Fact) :
    (∃ supports, row = some (fact, supports)) ↔
      fact = [.str e] ∧ encodeIdrefV1 host entityType (fs.map fun f => (f.name, f.typeDomain,
        datumOf ((Dict.get? f.values e).getD (.none, "")).1)) = .ok e := by
  unfold existsRow at h
  simp only [List.map_map, Function.comp_def] at h
  split at h
  · rename_i herr
    cases h
    simp [herr]
  · rename_i herr
    cases h
    simp [herr]
  · cases h
  · rename_i expected hexpected
    rw [hexpected, Except.ok.injEq]
    by_cases he : expected = e
    · rw [if_neg (not_not.mpr he)] at h
      cases h
      simp [he, eq_comm]
    · rw [if_pos he] at h
      cases h
      simp [he]

/-- **The rows of an entity type**: the entities with a complete bundle whose cells spell the
reference. -/
theorem mem_existsRows (hl : l.Sound) {host : Host} {fields : List (Option IdentityField)}
    {predId : String}
    {rows : List (Fact × List String)}
    (h : entityRows host (reads l) ix (some ⟨some entityType, some fields⟩) =
      .ok (some (predId, rows))) (hfields : fields ≠ []) :
    [.str eRef] ∈ rows.map Prod.fst ↔
      ∃ vs, Bundle (reads l) ix entityType eRef fields vs ∧
        SpelledByCells host entityType vs eRef := by
  unfold entityRows at h
  simp only at h
  split at h
  · cases h
  · obtain ⟨fs, hfs, h⟩ := bind_ok_iff.mp h
    obtain ⟨options, hoptions, h⟩ := bind_ok_iff.mp h
    cases h
    have hselected : List.Forall₂ (Selected (reads l) ix entityType) fields fs :=
      (mapOk_ok_iff.mp hfs).imp fun _ _ => selected_of_selectIdentityField
    have hne : fs ≠ [] := by
      intro he
      subst he
      cases hselected
      exact hfields rfl
    constructor
    · intro hmem
      obtain ⟨⟨fact, supports⟩, hrow, rfl⟩ := List.mem_map.mp hmem
      obtain ⟨e, he, hexists⟩ := mem_of_mapOk hoptions (List.reduceOption_mem_iff.mp hrow)
      obtain ⟨heq, hspelled⟩ := (existsRow_ok hexists _).mp ⟨supports, rfl⟩
      obtain rfl : eRef = e := by simpa using heq
      obtain ⟨vs, hvs, hmap⟩ := bundle_of_selected hl hselected (mem_candidateRefs.mp he).2
      rw [hmap] at hspelled
      exact ⟨vs, hvs, hspelled⟩
    · rintro ⟨vs, hvs, hspelled⟩
      have hall := selected_of_bundle hselected hvs
      obtain ⟨ws, hws, hmap⟩ := bundle_of_selected hl hselected hall
      obtain rfl := hvs.unique hws
      obtain ⟨row, hrow, hexists⟩ :=
        image_of_mapOk hoptions (mem_candidateRefs.mpr ⟨hne, hall⟩)
      obtain ⟨supports, rfl⟩ := (existsRow_ok hexists [.str eRef]).mpr
        ⟨rfl, by rw [hmap]; exact hspelled⟩
      exact List.mem_map.mpr ⟨_, List.reduceOption_mem_iff.mpr hrow, rfl⟩

/-! ## The view -/

/-- The indexes `_virtual_entity_exists_rows` builds over the predicates. -/
def SchemaIr.ownerIndex (schema : SchemaIr) : OwnerIndex :=
  ((schema.predicates.getD []).reduceOption).foldl OwnerIndex.add {}

/-- The schema declares an entity type with its identity fields and its existence predicate. Of two
declarations under one predicate the last one counts. -/
structure SchemaIr.DeclaresExists (schema : SchemaIr) (entityType : String)
    (fields : List (Option IdentityField)) (predId : String) : Prop where
  entity : ∃ before after, schema.entities =
      some (before ++ some ⟨some entityType, some fields⟩ :: after) ∧
    ∀ e : SchemaEntity, some e ∈ after → ∀ t, e.entityType = some t →
      Dict.get? schema.ownerIndex.existsByOwner t ≠ some predId
  owner : Dict.get? schema.ownerIndex.existsByOwner entityType = some predId
  predicate : ∃ before pred after, schema.predicates = some (before ++ some pred :: after) ∧
    pred.predId = some predId ∧ pred.isEntityExists = true ∧
    ∀ q, some q ∈ after → q.predId ≠ some predId

theorem requirePred_ok {preds : List (Option SchemaPred)} {ps : List SchemaPred}
    (h : mapOk requirePred preds = .ok ps) : ps = preds.reduceOption := by
  rw [mapOk_ok_iff] at h
  induction h with
  | nil => rfl
  | @cons p q _ _ hp _ ih =>
    cases p with
    | none => cases hp
    | some p =>
      cases hp
      rw [List.reduceOption_cons_of_some, ih]

/-- One turn of the loop over the entities. -/
def entityStep (host : Host) (r : LedgerReads) (ix : OwnerIndex)
    (out : List (String × List (Fact × List String))) (entity : Option SchemaEntity) :
    Except StoreErr (List (String × List (Fact × List String))) := do
  let rows ← entityRows host r ix entity
  .ok (match rows with
    | some (predId, rows) => Dict.set out predId rows
    | none => out)

theorem entityRows_key {host : Host} {entity : Option SchemaEntity} {predId : String}
    {rows : List (Fact × List String)}
    (h : entityRows host r ix entity = .ok (some (predId, rows))) :
    ∃ e t, entity = some e ∧ e.entityType = some t ∧
      Dict.get? ix.existsByOwner t = some predId := by
  unfold entityRows at h
  split at h
  · cases h
  · split at h
    · cases h
    · obtain ⟨fs, _, h⟩ := bind_ok_iff.mp h
      obtain ⟨options, _, h⟩ := bind_ok_iff.mp h
      cases h
      exact ⟨_, _, rfl, rfl, by assumption⟩
  · cases h

/-- Entities of other predicates leave the rows of this one alone. -/
theorem get?_entitySteps {host : Host} {predId : String} {entities : List (Option SchemaEntity)}
    (hother : ∀ e : SchemaEntity, some e ∈ entities → ∀ t, e.entityType = some t →
      Dict.get? ix.existsByOwner t ≠ some predId)
    {out out' : List (String × List (Fact × List String))}
    (h : entities.foldlM (entityStep host r ix) out = .ok out') :
    Dict.get? out' predId = Dict.get? out predId := by
  induction entities generalizing out with
  | nil =>
    cases h
    rfl
  | cons entity entities ih =>
    rw [List.foldlM_cons] at h
    obtain ⟨out₁, hstep, h⟩ := bind_ok_iff.mp h
    rw [ih (fun e he => hother e (List.mem_cons_of_mem entity he)) h]
    unfold entityStep at hstep
    obtain ⟨rows, hrows, hstep⟩ := bind_ok_iff.mp hstep
    cases hstep
    match rows, hrows with
    | none, _ => rfl
    | some (p, rows), hrows =>
      obtain ⟨e, t, rfl, ht, hp⟩ := entityRows_key hrows
      have hne : predId ≠ p := by
        intro he
        exact hother e List.mem_cons_self t ht (he ▸ hp)
      exact Dict.get?_set_of_ne hne

variable {host : Host} {schema : SchemaIr} {fields : List (Option IdentityField)} {predId : String}

/-- The rows of a declared entity type. -/
theorem virtualRows_of_declared (hdecl : schema.DeclaresExists entityType fields predId)
    {out : List (String × List (Fact × List String))}
    (h : virtualEntityExistsRows host r schema = .ok out) :
    ∃ rows, entityRows host r schema.ownerIndex (some ⟨some entityType, some fields⟩) =
      .ok (some (predId, rows)) ∧ Dict.get? out predId = some rows := by
  obtain ⟨before, after, hentities, hafter⟩ := hdecl.entity
  unfold virtualEntityExistsRows schemaPredicates at h
  obtain ⟨predicates, hpreds, h⟩ := bind_ok_iff.mp h
  rw [hentities] at h
  simp only at h
  obtain ⟨ps, hps, h⟩ := bind_ok_iff.mp h
  have hix : ps.foldl OwnerIndex.add {} = schema.ownerIndex := by
    unfold SchemaIr.ownerIndex
    rw [requirePred_ok hps]
    cases hp : schema.predicates with
    | none => simp [hp] at hpreds
    | some qs =>
      rw [hp] at hpreds
      rw [← Except.ok.inj hpreds]
      rfl
  rw [hix] at h
  change (before ++ _ :: after).foldlM (entityStep host r schema.ownerIndex) _ = .ok out at h
  rw [List.foldlM_append] at h
  obtain ⟨out₁, _, h⟩ := bind_ok_iff.mp h
  rw [List.foldlM_cons] at h
  obtain ⟨out₂, hstep, h⟩ := bind_ok_iff.mp h
  rw [get?_entitySteps hafter h]
  unfold entityStep at hstep
  obtain ⟨rows, hrows, hstep⟩ := bind_ok_iff.mp hstep
  cases hstep
  match rows, hrows with
  | none, hrows =>
    -- an entity type with an existence predicate has rows
    unfold entityRows at hrows
    simp only [hdecl.owner] at hrows
    obtain ⟨fs, _, hrows⟩ := bind_ok_iff.mp hrows
    obtain ⟨options, _, hrows⟩ := bind_ok_iff.mp hrows
    cases hrows
  | some (p, rows), hrows =>
    obtain ⟨e, t, he, ht, hp⟩ := entityRows_key hrows
    cases he
    cases ht
    obtain rfl : predId = p := Option.some.inj (hdecl.owner.symm.trans hp)
    exact ⟨rows, hrows, Dict.get?_set_self _ _ _⟩

/-- The existence view of a declared entity type has its rows, sorted. -/
theorem view_of_exists (hdecl : schema.DeclaresExists entityType fields predId)
    {views : List (String × List Fact)} (h : projectViewFacts host r schema = .ok views) :
    ∃ rows, entityRows host r schema.ownerIndex (some ⟨some entityType, some fields⟩) =
      .ok (some (predId, rows)) ∧
      Dict.get? views predId = some (sortByFact host id (rows.map Prod.fst)) := by
  obtain ⟨before, pred, after, hpreds, hp, hexists, hafter⟩ := hdecl.predicate
  unfold projectViewFacts schemaPredicates at h
  rw [hpreds] at h
  simp only [ok_bind] at h
  obtain ⟨virtualExists, hvirtual, h⟩ := bind_ok_iff.mp h
  obtain ⟨rows, hrows, hget⟩ := virtualRows_of_declared hdecl hvirtual
  refine ⟨rows, hrows, ?_⟩
  change (before ++ some pred :: after).foldlM (viewStep host r virtualExists) [] = .ok views at h
  rw [List.foldlM_append] at h
  obtain ⟨out, _, h⟩ := bind_ok_iff.mp h
  rw [List.foldlM_cons] at h
  obtain ⟨out₁, hstep, h⟩ := bind_ok_iff.mp h
  rw [get?_viewSteps hafter h]
  unfold viewStep projectPredicate at hstep
  simp only [requirePred, ok_bind] at hstep
  obtain ⟨view, hview, hstep⟩ := bind_ok_iff.mp hstep
  cases hstep
  obtain ⟨p, hpid, hview⟩ := bind_ok_iff.mp hview
  obtain rfl : p = predId := Option.some.inj ((predId_of_require hpid).symm.trans hp)
  rw [if_pos hexists, hget] at hview
  cases hview
  exact Dict.get?_set_self _ _ _

/-- **The existence view has the references that the values spell exactly where cells are legible**:
the row of a reference is there if and only if its values spell it, if and only if no term it
carries is illegible when its values or its cells spell it. -/
theorem existsView_spelledByValues_iff {l : Ledger} (hl : l.Reachable) (host : Host)
    {schema : SchemaIr} {views : List (String × List Fact)}
    (hviews : projectViewFacts host (reads l) schema = .ok views)
    {entityType : String} {fields : List (Option IdentityField)} {predId : String}
    (hdecl : schema.DeclaresExists entityType fields predId) (hfields : fields ≠ [])
    (eRef : String) (hsep : ∀ vs, Bundle (reads l) schema.ownerIndex entityType eRef fields vs →
      Separated host entityType vs) :
    ∃ rows, Dict.get? views predId = some rows ∧
      (([.str eRef] ∈ rows ↔
          ∃ vs, Bundle (reads l) schema.ownerIndex entityType eRef fields vs ∧
            SpelledByValues host entityType vs eRef) ↔
        ∀ vs, Bundle (reads l) schema.ownerIndex entityType eRef fields vs →
          SpelledByValues host entityType vs eRef ∨ SpelledByCells host entityType vs eRef →
          ∀ v ∈ vs, v.Legible) := by
  obtain ⟨rows, hrows, hget⟩ := view_of_exists hdecl hviews
  refine ⟨_, hget, ?_⟩
  have hmem : ([.str eRef] : Fact) ∈ sortByFact host id (rows.map Prod.fst) ↔
      ∃ vs, Bundle (reads l) schema.ownerIndex entityType eRef fields vs ∧
        SpelledByCells host entityType vs eRef := by
    unfold sortByFact
    rw [List.mem_insertionSort]
    exact mem_existsRows hl.sound hrows hfields
  rw [hmem]
  constructor
  · intro hiff vs hvs hspelled
    -- the bundle is unique, so a reference spelled one way is spelled the other way too
    have hboth : SpelledByValues host entityType vs eRef ∧ SpelledByCells host entityType vs eRef := by
      rcases hspelled with hvalues | hcells
      · obtain ⟨ws, hws, hcells⟩ := hiff.mpr ⟨vs, hvs, hvalues⟩
        obtain rfl := hvs.unique hws
        exact ⟨hvalues, hcells⟩
      · obtain ⟨ws, hws, hvalues⟩ := hiff.mp ⟨vs, hvs, hcells⟩
        obtain rfl := hvs.unique hws
        exact ⟨hvalues, hcells⟩
    exact legible_of_spelled (hsep vs hvs) hboth.2 hboth.1
  · intro hlegible
    constructor
    · rintro ⟨vs, hvs, hcells⟩
      exact ⟨vs, hvs, (spelledByCells_iff (hlegible vs hvs (.inr hcells))).mp hcells⟩
    · rintro ⟨vs, hvs, hvalues⟩
      exact ⟨vs, hvs, (spelledByCells_iff (hlegible vs hvs (.inl hvalues))).mpr hvalues⟩

/-! ## A document named by a byte string -/

/-- The SHA-256 digests of the two encodings below. -/
def docHost : Host where
  str _ := ""
  sha256 raw :=
    if raw = utf8 "factpy\x00idref_v1\x00\x00\x00\x00\x03Doc\x00\x00\x00\x01\x00\x00\x00\x03key\x05" ++
        [0, 0, 0, 1, 255] then
      [124, 51, 0, 72, 105, 118, 184, 211, 89, 150, 183, 31, 42, 26, 56, 10, 34, 145, 22, 202, 178,
        107, 17, 240, 44, 185, 151, 255, 199, 89, 100, 162]
    else if raw = utf8 "factpy\x00idref_v1\x00\x00\x00\x00\x03Doc\x00\x00\x00\x01\x00\x00\x00\x06number\x02" ++
        [0, 0, 0, 1, 55] then
      [24, 108, 120, 235, 250, 184, 156, 56, 149, 221, 134, 121, 10, 156, 30, 60, 23, 145, 192, 81,
        68, 92, 223, 26, 228, 189, 183, 207, 182, 126, 245, 100]
    else []

/-- Documents have one identity field. -/
def docSchema (name domain : String) : SchemaIr where
  predicates := some
    [some { predId := some "Doc:exists", isEntityExists := true, ownerType := some "Doc",
            groupKeyIndexes := some [some 0] },
     some { predId := some ("Doc:" ++ name), isIdentityField := true, ownerType := some "Doc",
            pyFieldName := some name, groupKeyIndexes := some [some 0] }]
  entities := some [some ⟨some "Doc", some [some ⟨some name, some domain⟩]⟩]

/-- One document, with its identity. -/
def docLedger (name eRef : String) (term : Term) : Ledger :=
  (Write.claim ⟨"a1", "Doc:" ++ name, eRef, [term]⟩).run .empty

/-- The document whose key is the byte 255. -/
def keyRef : String := "idref_v1:Doc:pqzqasdjo24ngwmww4psugrybirjcfwkwjvrd4bmxgl77r2zmsra"

/-- The document whose number is 7. -/
def numberRef : String := "idref_v1:Doc:dbwhr272xcodrfo5qz4qvha6hqlzdqcriron6gxexw347nt66vsa"

/-- The claim of a document, of the one field. -/
def docClaim (name eRef : String) (term : Term) : Claim := ⟨"a1", "Doc:" ++ name, eRef, [term]⟩

/-- The predicate of the one field. -/
def docPred (name : String) : SchemaPred :=
  { predId := some ("Doc:" ++ name), isIdentityField := true, ownerType := some "Doc",
    pyFieldName := some name, groupKeyIndexes := some [some 0] }

theorem docSchema_declares_number :
    (docSchema "number" "int").DeclaresExists "Doc" [some ⟨some "number", some "int"⟩]
      "Doc:exists" where
  entity := ⟨[], [], rfl, by simp⟩
  owner := by rfl
  predicate := ⟨[], _, _, rfl, rfl, rfl, by simp⟩

/-- The term the document with a number carries. -/
def numberCarried : Carried := ⟨"number", "int", ("int", .leaf (.int 7)), .int 7, rfl⟩

/-- **A document named by a byte string has no row**, though the value of its identity claim spells
its reference. -/
theorem no_existsRow_of_bytes :
    ∃ views rows,
      projectViewFacts docHost (reads (docLedger "key" keyRef ("bytes", .leaf (.bytes [255]))))
        (docSchema "key" "bytes") = .ok views ∧
      Dict.get? views "Doc:exists" = some rows ∧
      ¬ ([.str keyRef] ∈ rows ↔
        ∃ vs, Bundle (reads (docLedger "key" keyRef ("bytes", .leaf (.bytes [255]))))
            (docSchema "key" "bytes").ownerIndex "Doc" keyRef [some ⟨some "key", some "bytes"⟩] vs ∧
          SpelledByValues docHost "Doc" vs keyRef) := by
  refine ⟨[("Doc:exists", []), ("Doc:key", [[.str keyRef, .str "_w"]])], [], by rfl, rfl, ?_⟩
  intro hiff
  have hbundle : Bundle (reads (docLedger "key" keyRef ("bytes", .leaf (.bytes [255]))))
      (docSchema "key" "bytes").ownerIndex "Doc" keyRef [some ⟨some "key", some "bytes"⟩]
      [⟨"key", "bytes", ("bytes", .leaf (.bytes [255])), .str "_w", by rfl⟩] := by
    refine .cons ⟨rfl, docPred "key", [docClaim "key" keyRef ("bytes", .leaf (.bytes [255]))],
      docClaim "key" keyRef ("bytes", .leaf (.bytes [255])), ?_, ?_, ?_, rfl⟩ .nil
    all_goals rfl
  have hspelled : SpelledByValues docHost "Doc"
      [⟨"key", "bytes", ("bytes", .leaf (.bytes [255])), .str "_w", by rfl⟩] keyRef := by
    unfold SpelledByValues
    decide +kernel
  exact absurd (hiff.mpr ⟨_, hbundle, hspelled⟩) List.not_mem_nil

/-- A document named by a number has a row, and its value spells its reference. -/
theorem existsRow_of_number :
    ∃ rows, Dict.get? [("Doc:exists", [[Rules.Value.str numberRef]]),
        ("Doc:number", [[.str numberRef, .int 7]])] "Doc:exists" = some rows ∧
      ([.str numberRef] ∈ rows ↔
        ∃ vs, Bundle (reads (docLedger "number" numberRef ("int", .leaf (.int 7))))
            (docSchema "number" "int").ownerIndex "Doc" numberRef
            [some ⟨some "number", some "int"⟩] vs ∧
          SpelledByValues docHost "Doc" vs numberRef) := by
  have hbundle : Bundle (reads (docLedger "number" numberRef ("int", .leaf (.int 7))))
      (docSchema "number" "int").ownerIndex "Doc" numberRef [some ⟨some "number", some "int"⟩]
      [numberCarried] := by
    refine .cons ⟨rfl, docPred "number", [docClaim "number" numberRef ("int", .leaf (.int 7))],
      docClaim "number" numberRef ("int", .leaf (.int 7)), ?_, ?_, ?_, rfl⟩ .nil
    all_goals rfl
  have hlegible : ∀ v ∈ [numberCarried], v.Legible := by
    intro v hv
    obtain rfl := List.mem_singleton.mp hv
    have hdomain : "int" ≠ "bytes" := by decide
    exact (legible_iff_of_tag (t := ("int", .leaf (.int 7))) rfl).mpr hdomain
  have hviews : projectViewFacts docHost
      (reads (docLedger "number" numberRef ("int", .leaf (.int 7)))) (docSchema "number" "int") =
      .ok [("Doc:exists", [[.str numberRef]]), ("Doc:number", [[.str numberRef, .int 7]])] := by
    decide +kernel
  have hsep : ∀ vs, Bundle (reads (docLedger "number" numberRef ("int", .leaf (.int 7))))
      (docSchema "number" "int").ownerIndex "Doc" numberRef [some ⟨some "number", some "int"⟩] vs →
      Separated docHost "Doc" vs := by
    intro vs hvs x y hx hy _
    obtain rfl := hvs.unique hbundle
    exact Except.ok.inj (hx.symm.trans hy)
  obtain ⟨rows, hget, hiff⟩ := existsView_spelledByValues_iff ⟨[], [_], rfl⟩ docHost hviews
    docSchema_declares_number (by simp) numberRef hsep
  refine ⟨rows, hget, hiff.mpr ?_⟩
  intro vs hvs _
  obtain rfl := hvs.unique hbundle
  exact hlegible

end FactGraph.View
