import FactGraph.Evidence.Prepared

/-!
# An ingest key names at most one active claim

The runs of the four operations of the write protocol, from an empty ledger. One operation does
nothing, appends a claim under a key that no active claim has, or revokes a claim (`FieldStep`);
`replace_field` does two of these. So the metadata rows that carry an ingest key are, in order, one for
every claim, and no two active claims share a key (`Keyed`).

The policy of a schema reserves the key `ingest_key`, so no ledger keeps it out of memory.
-/

namespace FactGraph.Evidence

open Protocol Store Check Indexes

/-! ## Keys of a ledger -/

/-- The ingest keys among the metadata, with the ids they belong to. -/
def ingestKeys (l : Ledger) : List (String × String) :=
  l.indexes.metaRowsData.filterMap fun r => (ingestKey? r).map fun key => (r.asrtId, key)

/-- The id is that of an active claim that has the key. -/
structure ActiveWith (l : Ledger) (key asrtId : String) : Prop where
  known : ∃ c ∈ l.indexes.claims, c.asrtId = asrtId
  key : (asrtId, key) ∈ ingestKeys l
  active : l.hasActiveRevocation asrtId = false

theorem ingestKey?_eq_some {r : MetaRow} {key : String} (h : ingestKey? r = some key) :
    r.key = .plain "ingest_key" ∧ r.kind = "str" ∧ r.value = .leaf (.str key) := by
  obtain ⟨asrtId, k, kind, value⟩ := r
  unfold ingestKey? at h
  split at h
  next hkey hkind hvalue =>
    cases h
    exact ⟨hkey, hkind, hvalue⟩
  next => cases h

theorem mem_ingestKeys {l : Ledger} {asrtId key : String} :
    (asrtId, key) ∈ ingestKeys l ↔
      ∃ r ∈ l.indexes.metaRowsData, r.asrtId = asrtId ∧ ingestKey? r = some key := by
  unfold ingestKeys
  rw [List.mem_filterMap]
  constructor
  · rintro ⟨r, hr, hkey⟩
    obtain ⟨k, hk, heq⟩ := Option.map_eq_some_iff.mp hkey
    cases heq
    exact ⟨r, hr, rfl, hk⟩
  · rintro ⟨r, hr, rfl, hk⟩
    exact ⟨r, hr, by rw [hk]; rfl⟩

/-! ## The invariant -/

/-- What holds after every run of the write protocol. -/
structure Keyed (l : Ledger) : Prop where
  sound : l.Sound
  eager : l.isLazy "ingest_key" = false
  owners : (ingestKeys l).map Prod.fst = l.indexes.claims.map (·.asrtId)
  unique : ∀ key a b, ActiveWith l key a → ActiveWith l key b → a = b

theorem keyed_opened {lazyKeys : List String} (h : "ingest_key" ∉ lazyKeys) :
    Keyed (Ledger.opened lazyKeys) where
  sound := Ledger.sound_opened lazyKeys
  eager := decide_eq_false h
  owners := rfl
  unique := by
    intro key a b ha
    obtain ⟨c, hc, _⟩ := ha.known
    cases hc

namespace Keyed

variable {l : Ledger}

theorem nodup_claims (hl : Keyed l) : (l.indexes.claims.map (·.asrtId)).Nodup :=
  (List.nodup_append.mp (nodup_ids hl.sound)).1

/-- Every key belongs to a claim. -/
theorem known_of_key (hl : Keyed l) {a key : String} (h : (a, key) ∈ ingestKeys l) :
    ∃ c ∈ l.indexes.claims, c.asrtId = a := by
  have hmem : a ∈ (ingestKeys l).map Prod.fst := List.mem_map_of_mem h
  rw [hl.owners] at hmem
  exact List.mem_map.mp hmem

/-- Every claim has exactly one key. -/
theorem exists_unique_key (hl : Keyed l) {c : Claim} (hc : c ∈ l.indexes.claims) :
    ∃ key, (c.asrtId, key) ∈ ingestKeys l ∧
      ∀ other, (c.asrtId, other) ∈ ingestKeys l → other = key := by
  have hmem : c.asrtId ∈ (ingestKeys l).map Prod.fst := by
    rw [hl.owners]
    exact List.mem_map_of_mem hc
  obtain ⟨⟨a, key⟩, hkey, rfl⟩ := List.mem_map.mp hmem
  have hnodup : ((ingestKeys l).map Prod.fst).Nodup := by
    rw [hl.owners]
    exact hl.nodup_claims
  refine ⟨key, hkey, ?_⟩
  intro other hother
  have heq := List.inj_on_of_nodup_map hnodup hother hkey rfl
  exact (Prod.ext_iff.mp heq).2

end Keyed

/-- A candidate of the lookup that is a claim is accepted if it is active. -/
theorem acceptIngest_eq {l : Ledger} (hl : l.Sound) {a : String}
    (h : ∃ c ∈ l.indexes.claims, c.asrtId = a) :
    l.acceptIngest a = if l.hasActiveRevocation a then none else some a := by
  unfold Ledger.acceptIngest
  rw [if_pos (hl.has_claim_iff.mpr h)]

/-- Where ingest keys belong to claims, the lookup answers with a claim that is active under the key. -/
theorem activeWith_of_find {l : Ledger} (hl : l.Sound)
    (hknown : ∀ a key, (a, key) ∈ ingestKeys l → ∃ c ∈ l.indexes.claims, c.asrtId = a)
    {key a : String} (h : l.findIngestKey key = some a) : ActiveWith l key a := by
  unfold Ledger.findIngestKey at h
  rw [hl.coherent.ingestKeys] at h
  obtain ⟨b, hb, haccept⟩ := List.exists_of_findSome?_eq_some h
  obtain ⟨r, hr, rfl⟩ := List.mem_map.mp hb
  obtain ⟨hrow, hkey⟩ := List.mem_filter.mp hr
  have hmem : (r.asrtId, key) ∈ ingestKeys l :=
    mem_ingestKeys.mpr ⟨r, hrow, rfl, by simpa using hkey⟩
  rw [acceptIngest_eq hl (hknown _ _ hmem)] at haccept
  split at haccept
  next => cases haccept
  next hactive =>
    cases haccept
    exact ⟨hknown _ _ hmem, hmem, by simpa using hactive⟩

namespace Keyed

variable {l : Ledger}

/-- **The lookup of an ingest key** finds the active claim that has it. -/
theorem findIngestKey_eq_some_iff (hl : Keyed l) {key a : String} :
    l.findIngestKey key = some a ↔ ActiveWith l key a := by
  constructor
  · exact activeWith_of_find hl.sound fun _ _ => hl.known_of_key
  · intro h
    obtain ⟨r, hr, hid, hkey⟩ := mem_ingestKeys.mp h.key
    cases hfind : l.findIngestKey key with
    | some b =>
      have hb := activeWith_of_find hl.sound (fun _ _ => hl.known_of_key) hfind
      rw [hl.unique key a b h hb]
    | none =>
      unfold Ledger.findIngestKey at hfind
      rw [hl.sound.coherent.ingestKeys] at hfind
      have hmem : a ∈ (l.indexes.metaRowsData.filter fun r => ingestKey? r = some key).map
          MetaRow.asrtId := List.mem_map.mpr ⟨r, List.mem_filter.mpr ⟨hr, by simpa using hkey⟩, hid⟩
      have hnone := List.findSome?_eq_none_iff.mp hfind a hmem
      rw [acceptIngest_eq hl.sound h.known, h.active] at hnone
      cases hnone

theorem findIngestKey_eq_none_iff (hl : Keyed l) {key : String} :
    l.findIngestKey key = none ↔ ∀ a, ¬ActiveWith l key a := by
  rw [Option.eq_none_iff_forall_ne_some]
  exact forall_congr' fun a => not_congr hl.findIngestKey_eq_some_iff

end Keyed

/-! ## Steps -/

/-- What one write of the protocol does. -/
inductive FieldStep (l : Ledger) : Ledger → Prop
  | refused : FieldStep l l
  | wrote {l' : Ledger} {c : Claim} {key : String} (step : l.Step l')
      (lazyMetaKeys : l'.lazyMetaKeys = l.lazyMetaKeys) (free : l.findIngestKey key = none)
      (claims : l'.indexes.claims = l.indexes.claims ++ [c])
      (keys : ingestKeys l' = ingestKeys l ++ [(c.asrtId, key)])
      (revokes : l'.indexes.revokesData = l.indexes.revokesData) : FieldStep l l'
  | revoked {l' : Ledger} {r : Revokes} (step : l.Step l')
      (lazyMetaKeys : l'.lazyMetaKeys = l.lazyMetaKeys)
      (claims : l'.indexes.claims = l.indexes.claims) (keys : ingestKeys l' = ingestKeys l)
      (revokes : l'.indexes.revokesData = l.indexes.revokesData ++ [r]) : FieldStep l l'

theorem hasActiveRevocation_false_iff {l : Ledger} (hl : l.Sound) {a : String} :
    l.hasActiveRevocation a = false ↔ ∀ r ∈ l.indexes.revokesData, r.revokedAsrtId ≠ a := by
  rw [← Bool.not_eq_true, hl.hasActiveRevocation_iff]
  simp

/-- **One write keeps the invariant.** -/
theorem Keyed.step {l l' : Ledger} (hl : Keyed l) (hs : FieldStep l l') : Keyed l' := by
  cases hs with
  | refused => exact hl
  | @wrote _ c key step lazyMetaKeys free claims keys revokes =>
    have hsound : l'.Sound := hl.sound.step step
    have hids : c.asrtId ∉ l.indexes.claims.map (·.asrtId) := by
      have hnodup := (List.nodup_append.mp (nodup_ids hsound)).1
      rw [claims, List.map_append] at hnodup
      intro hmem
      exact (List.nodup_append.mp hnodup).2.2 _ hmem _ (by simp) rfl
    -- a claim that is active under a key is an old one, or the new one under its own key
    have hcases : ∀ {k a}, ActiveWith l' k a → ActiveWith l k a ∨ (a = c.asrtId ∧ k = key) := by
      intro k a ha
      have hkey := ha.key
      rw [keys, List.mem_append] at hkey
      rcases hkey with hkey | hkey
      · refine .inl ⟨hl.known_of_key hkey, hkey, ?_⟩
        have hactive := (hasActiveRevocation_false_iff hsound).mp ha.active
        rw [revokes] at hactive
        exact (hasActiveRevocation_false_iff hl.sound).mpr hactive
      · cases List.mem_singleton.mp hkey
        exact .inr ⟨rfl, rfl⟩
    refine ⟨hsound, ?_, ?_, ?_⟩
    · unfold Ledger.isLazy
      rw [lazyMetaKeys]
      exact hl.eager
    · rw [keys, claims, List.map_append, List.map_append, hl.owners]
      rfl
    · intro k a b ha hb
      have hfree := hl.findIngestKey_eq_none_iff.mp free
      rcases hcases ha with ha | ⟨rfl, rfl⟩ <;> rcases hcases hb with hb | ⟨rfl, hk⟩
      · exact hl.unique k a b ha hb
      · exact absurd (hk ▸ ha) (hfree a)
      · exact absurd hb (hfree b)
      · rfl
  | @revoked _ r step lazyMetaKeys claims keys revokes =>
    have hsound : l'.Sound := hl.sound.step step
    have hback : ∀ {k a}, ActiveWith l' k a → ActiveWith l k a := by
      intro k a ha
      have hactive := (hasActiveRevocation_false_iff hsound).mp ha.active
      refine ⟨claims ▸ ha.known, keys ▸ ha.key, ?_⟩
      apply (hasActiveRevocation_false_iff hl.sound).mpr
      intro s hs
      exact hactive s (revokes ▸ List.mem_append_left _ hs)
    refine ⟨hsound, ?_, ?_, ?_⟩
    · unfold Ledger.isLazy
      rw [lazyMetaKeys]
      exact hl.eager
    · rw [keys, claims]
      exact hl.owners
    · exact fun k a b ha hb => hl.unique k a b (hback ha) (hback hb)

/-! ## The operations are steps -/

theorem eventsDelta_rows (l : Ledger) (rows : List MetaRow) (n op : Nat) :
    (eventsDelta l.isLazy (rows.map .row) n op true).rows =
      rows.filter fun r => !l.isLazy r.key.text := by
  have hrows : rowsOf (rows.map .row) = rows := by
    unfold rowsOf
    rw [List.filterMap_map]
    exact List.filterMap_some
  simp [eventsDelta, hrows]

theorem assertionDelta_rows (l : Ledger) (claim : Claim) (metaRows : List MetaRow)
    (annotationRows : List AnnotationRow) (n op : Nat) :
    (l.assertionDelta claim metaRows annotationRows n op).rows =
      metaRows.filter fun r => !l.isLazy r.key.text := by
  rw [← eventsDelta_rows l metaRows n op]
  unfold Ledger.assertionDelta Ledger.claimMetaDelta
  cases annotationCompatibilityMetaRows annotationRows metaRows <;> simp [Delta.append, eventsDelta]

/-- The ingest keys of rows do not depend on which other rows are kept in memory. -/
theorem keys_filter_eager {l : Ledger} (hl : l.isLazy "ingest_key" = false) (rows : List MetaRow) :
    (rows.filter fun r => !l.isLazy r.key.text).filterMap
        (fun r => (ingestKey? r).map fun key => (r.asrtId, key)) =
      rows.filterMap fun r => (ingestKey? r).map fun key => (r.asrtId, key) := by
  rw [List.filterMap_filter]
  apply List.filterMap_congr
  intro r _
  cases hkey : ingestKey? r with
  | none => simp
  | some key =>
    have hplain := (ingestKey?_eq_some hkey).1
    simp [hplain, MetaKey.text, hl]

/-- The metadata of a user carries no ingest key. -/
theorem keys_users {asrtId : String} {m : MetaDict} (hm : ∀ p ∈ m.entries, UserKey p.1)
    {users : List MetaRow} (h : userMetaRows asrtId m = .ok users) :
    users.filterMap (fun r => (ingestKey? r).map fun key => (r.asrtId, key)) = [] := by
  apply List.filterMap_eq_nil_iff.mpr
  intro r hr
  obtain ⟨p, hp, hrow⟩ := (userMetaRows_spec hm h).1 r hr
  cases hkey : ingestKey? r with
  | none => rfl
  | some key =>
    have hplain := (ingestKey?_eq_some hkey).1
    rw [hrow.key] at hplain
    have hmanaged : p.1 ∈ systemManagedMetaKeys := by
      rw [MetaKey.plain.inj hplain]
      decide
    exact absurd hmanaged (hm p hp).unmanaged

theorem keys_ownRows (asrtId ingestKey : String) (ingestedAt : Int64) :
    (ownRows asrtId ingestKey ingestedAt).filterMap
      (fun r => (ingestKey? r).map fun key => (r.asrtId, key)) = [(asrtId, ingestKey)] := rfl

theorem idempotentAnswer_skip (l : Ledger) (ingestKey : String) :
    l.idempotentAnswer (some ⟨ingestKey, .skip⟩) = .ok (l.findIngestKey ingestKey) := by
  unfold Ledger.idempotentAnswer
  cases h : l.findIngestKey ingestKey <;> simp [h]

section

variable {l : Ledger} {w : FieldWrite} {m : MetaDict} {ingestKey asrtId : String}
  (parts : Parts w m asrtId)

/-- What `append_assertion` does with the arguments of a prepared write. -/
inductive FieldOutcome (l : Ledger) (w : FieldWrite) (m : MetaDict) (ingestKey asrtId : String) :
    Ledger × Except StoreErr AppendResult → Prop
  | refused (e : StoreErr) : FieldOutcome l w m ingestKey asrtId (l, .error e)
  | answered {existing : String} (h : l.findIngestKey ingestKey = some existing) :
      FieldOutcome l w m ingestKey asrtId (l, .ok ⟨existing, false⟩)
  | written {l' : Ledger} (encodable : m.Encodable) (free : l.findIngestKey ingestKey = none)
      (lazyMetaKeys : l'.lazyMetaKeys = l.lazyMetaKeys)
      (claims : l'.indexes.claims = l.indexes.claims ++ [w.claim asrtId])
      (keys : ingestKeys l' = ingestKeys l ++ [(asrtId, ingestKey)])
      (revokes : l'.indexes.revokesData = l.indexes.revokesData) :
      FieldOutcome l w m ingestKey asrtId (l', .ok ⟨asrtId, true⟩)

theorem fieldOutcome (hl : l.isLazy "ingest_key" = false) (hw : Prepared w m ingestKey)
    (ingestedAt : Int64) :
    FieldOutcome l w m ingestKey asrtId (l.appendAssertion (parts.args ingestKey ingestedAt)) := by
  have hanswer := idempotentAnswer_skip l ingestKey
  generalize hr : l.appendAssertion (parts.args ingestKey ingestedAt) = r
  have houtcome := l.appendAssertion_outcome (parts.args ingestKey ingestedAt)
  rw [hr] at houtcome
  -- an append is refused, answered by an earlier claim, or written
  cases houtcome with
  | refused e => exact .refused e
  | answered h =>
    rw [show (parts.args ingestKey ingestedAt).idempotency = some ⟨ingestKey, .skip⟩ from rfl,
      hanswer] at h
    exact .answered (Except.ok.inj h)
  | @written l' rows w' hcheck hfree hbuild h =>
    rw [show (parts.args ingestKey ingestedAt).idempotency = some ⟨ingestKey, .skip⟩ from rfl,
      hanswer] at hfree
    obtain rfl : rows = (parts.args ingestKey ingestedAt).metaRows := by
      rw [parts.check_ok hw ingestedAt] at hcheck
      exact (Except.ok.inj hcheck).symm
    obtain ⟨hclaim, hrows⟩ := Ledger.buildAssertion_eq hbuild
    have hclaim' : w'.claim = w.claim asrtId := by
      rw [hclaim]
      unfold FieldWrite.claim Parts.args
      simp [FieldWrite.claim, effectiveId_self]
    have huser : startsWith systemPrefix w'.claim.predId = false := by
      rw [hclaim']
      exact hw.user
    have hids : ∀ r ∈ w'.metaRows, r.asrtId = w'.claim.asrtId := by
      rw [hclaim', hrows]
      exact parts.metaRows_asrtId hw ingestedAt
    obtain ⟨cs, hext⟩ := Ledger.extends_session
      (fun t hook hbody => ⟨_, Ledger.writes_assertionBody huser hids hbody⟩) h
    have hencodable : m.Encodable := by
      rw [← parts.encodable_iff hw ingestedAt, ← hrows]
      exact Ledger.encodable_of_session h
    rw [hclaim']
    refine .written hencodable (Except.ok.inj hfree) hext.lazyMetaKeys ?_ ?_ ?_
    · rw [hext.indexes.claims, ← hclaim']
      rfl
    · unfold ingestKeys
      rw [hext.indexes.rows, List.filterMap_append, assertionDelta_rows, keys_filter_eager hl, hrows]
      simp only [Parts.args, List.filterMap_append, keys_ownRows, keys_users hw.keys parts.users_ok]
      rfl
    · rw [hext.indexes.revokes]
      show l.indexes.revokesData ++ (l.claimMetaDelta _ _ _ _).revokes = _
      rw [(l.claimMetaDelta_claims _ _ _ _).2, List.append_nil]

end

section

variable (sha256 : List UInt8 → List UInt8)

theorem setField_step {l : Ledger} (hl : Keyed l) (w : FieldWrite) (asrtId : String)
    (ingestedAt : Int64) : FieldStep l (setField sha256 l w asrtId ingestedAt).1 := by
  unfold setField
  rcases hprepare : w.prepare sha256 with e | ⟨m, ingestKey⟩
  · exact .refused
  · simp only
    rcases hargs : w.assertionArgs m ingestKey asrtId ingestedAt with e | args
    · exact .refused
    · obtain ⟨parts, rfl⟩ := parts_of_ok hargs
      have hstep := l.step_appendAssertion (parts.args ingestKey ingestedAt)
      have houtcome := fieldOutcome parts hl.eager (prepared_of_ok hprepare) ingestedAt
      simp only
      generalize l.appendAssertion (parts.args ingestKey ingestedAt) = r at hstep houtcome ⊢
      cases houtcome with
      | refused e => exact .refused
      | answered h => exact .refused
      | written encodable free lazyMetaKeys claims keys revokes =>
        exact .wrote hstep lazyMetaKeys free claims keys revokes

/-- The metadata of a retraction carries no ingest key. -/
theorem keys_retraction {revokedAsrtId revokerAsrtId : String} {m : Option MetaDict}
    {ingestedAt : Int64} {rows : List MetaRow}
    (h : metaRowsForRetraction revokedAsrtId m revokerAsrtId ingestedAt = .ok rows) (id : String) :
    (rows.map fun row => { row with asrtId := id }).filterMap
      (fun r => (ingestKey? r).map fun key => (r.asrtId, key)) = [] := by
  unfold metaRowsForRetraction at h
  obtain ⟨m', hm, h⟩ := bind_ok_iff.mp h
  obtain ⟨users, husers, h⟩ := bind_ok_iff.mp h
  cases h
  apply List.filterMap_eq_nil_iff.mpr
  intro r hr
  obtain ⟨r', hr', rfl⟩ := List.mem_map.mp hr
  have hnone : ingestKey? r' = none := by
    rcases List.mem_cons.mp hr' with rfl | hr'
    · rfl
    rcases List.mem_cons.mp hr' with rfl | hr'
    · rfl
    have hkeys := List.filterMap_eq_nil_iff.mp (keys_users (normalizeMeta_keys hm) husers) r' hr'
    simpa using hkeys
  have hsame : ingestKey? { r' with asrtId := id } = ingestKey? r' := rfl
  rw [hsame, hnone]
  rfl

/-- The checks of `append_revocation` leave the metadata of a retraction as it is. -/
theorem retraction_rows {revokedAsrtId revokerAsrtId id : String} {rows rows' : List MetaRow}
    (hid : id = Ledger.effectiveId (some revokerAsrtId) revokerAsrtId "")
    (h : Ledger.checkRevocation { revokes := ⟨revokerAsrtId, revokedAsrtId⟩, metaRows := rows
                                  revokerAsrtId := some revokerAsrtId } = .ok rows') :
    rows' = rows.map fun row => { row with asrtId := id } := by
  unfold Ledger.checkRevocation at h
  obtain ⟨_, h⟩ := bind_unit_ok_iff.mp h
  obtain ⟨_, h⟩ := bind_unit_ok_iff.mp h
  obtain ⟨_, h⟩ := bind_unit_ok_iff.mp h
  rw [← hid] at h
  exact (Except.ok.inj h).symm

/-- What `retract_by_asrt` does. -/
inductive RetractOutcome (l : Ledger) (revokedAsrtId revokerAsrtId : String) :
    Ledger × Except StoreErr String → Prop
  | refused (e : StoreErr) : RetractOutcome l revokedAsrtId revokerAsrtId (l, .error e)
  | retracted {existing : String} (h : l.findRevoker revokedAsrtId = some existing) :
      RetractOutcome l revokedAsrtId revokerAsrtId (l, .ok existing)
  | written {l' : Ledger} (step : l.Step l') (lazyMetaKeys : l'.lazyMetaKeys = l.lazyMetaKeys)
      (claims : l'.indexes.claims = l.indexes.claims) (keys : ingestKeys l' = ingestKeys l)
      (revokes : l'.indexes.revokesData = l.indexes.revokesData ++ [⟨revokerAsrtId, revokedAsrtId⟩]) :
      RetractOutcome l revokedAsrtId revokerAsrtId (l', .ok revokerAsrtId)

theorem retractOutcome {l : Ledger} (hl : l.isLazy "ingest_key" = false) (revokedAsrtId : String)
    (m : Option MetaDict) (revokerAsrtId : String) (ingestedAt : Int64) :
    RetractOutcome l revokedAsrtId revokerAsrtId
      (retractByAsrt l revokedAsrtId m revokerAsrtId ingestedAt) := by
  unfold retractByAsrt
  rcases checkRetraction l revokedAsrtId with e | _
  · exact .refused e
  simp only
  rcases hrevoker : l.findRevoker revokedAsrtId with _ | existing
  · simp only
    rcases hrows : metaRowsForRetraction revokedAsrtId m revokerAsrtId ingestedAt with e | rows
    · exact .refused e
    · simp only
      let args : Ledger.RevocationArgs :=
        { revokes := ⟨revokerAsrtId, revokedAsrtId⟩, metaRows := rows
          revokerAsrtId := some revokerAsrtId }
      have hstep := l.step_appendRevocation args
      have houtcome := l.appendRevocation_outcome args
      show RetractOutcome l revokedAsrtId revokerAsrtId
        ((l.appendRevocation args).1, (l.appendRevocation args).2.map fun _ => revokerAsrtId)
      generalize l.appendRevocation args = r at hstep houtcome ⊢
      cases houtcome with
      | refused e => exact .refused e
      | answered h =>
        -- a retraction has no ingest key of its own
        cases h
      | @written l' rows' id hcheck hid h =>
        have hself : id = revokerAsrtId := hid.trans (effectiveId_self revokerAsrtId)
        subst hself
        have hrows' := retraction_rows hid hcheck
        have hids : ∀ r ∈ rows', r.asrtId = id := by
          rw [hid]
          exact Ledger.checkRevocation_ids hcheck
        obtain ⟨cs, hext⟩ := Ledger.extends_session (fun t hook hbody => by
          obtain ⟨cs, hw, _⟩ := Ledger.writes_revocationBody hids hbody
          exact ⟨cs, hw⟩) h
        refine .written hstep hext.lazyMetaKeys ?_ ?_ hext.indexes.revokes
        · rw [hext.indexes.claims]
          exact List.append_nil _
        · unfold ingestKeys
          rw [hext.indexes.rows, List.filterMap_append]
          have hdelta : (l.revocationDelta ⟨id, revokedAsrtId⟩ rows'
              l.tables.nextDirectTxSeq).rows = rows'.filter fun r => !l.isLazy r.key.text :=
            eventsDelta_rows l rows' l.tables.nextDirectTxSeq 0
          rw [hdelta, keys_filter_eager hl, hrows', keys_retraction hrows, List.append_nil]
  · exact .retracted hrevoker

theorem retractByAsrt_step {l : Ledger} (hl : l.isLazy "ingest_key" = false)
    (revokedAsrtId : String) (m : Option MetaDict) (revokerAsrtId : String) (ingestedAt : Int64) :
    FieldStep l (retractByAsrt l revokedAsrtId m revokerAsrtId ingestedAt).1 := by
  have houtcome := retractOutcome hl revokedAsrtId m revokerAsrtId ingestedAt
  generalize retractByAsrt l revokedAsrtId m revokerAsrtId ingestedAt = r at houtcome ⊢
  cases houtcome with
  | refused e => exact .refused
  | retracted h => exact .refused
  | written step lazyMetaKeys claims keys revokes =>
    exact .revoked step lazyMetaKeys claims keys revokes

/-! ## Runs -/

/-- A call of one of the four operations, with the ids and times the host hands it. -/
inductive FieldOp where
  | setField (w : FieldWrite) (asrtId : String) (ingestedAt : Int64)
  | addField (w : FieldWrite) (asrtId : String) (ingestedAt : Int64)
  | retractByAsrt (revokedAsrtId : String) (m : Option MetaDict) (revokerAsrtId : String)
      (ingestedAt : Int64)
  | replaceField (w : FieldWrite) (oldRestTerms : List Term) (revokerAsrtId : String)
      (revokedAt : Int64) (asrtId : String) (ingestedAt : Int64)

/-- The ledger a call leaves behind. -/
def FieldOp.run (l : Ledger) : FieldOp → Ledger
  | .setField w asrtId ingestedAt => (Evidence.setField sha256 l w asrtId ingestedAt).1
  | .addField w asrtId ingestedAt => (Evidence.addField sha256 l w asrtId ingestedAt).1
  | .retractByAsrt revokedAsrtId m revokerAsrtId ingestedAt =>
      (Evidence.retractByAsrt l revokedAsrtId m revokerAsrtId ingestedAt).1
  | .replaceField w oldRestTerms revokerAsrtId revokedAt asrtId ingestedAt =>
      (Evidence.replaceField sha256 l w oldRestTerms revokerAsrtId revokedAt asrtId ingestedAt).1

/-- A ledger that a run of the write protocol leads to, from an empty one that keeps ingest keys in
memory. -/
def Reachable (l : Ledger) : Prop :=
  ∃ (lazyKeys : List String) (ops : List FieldOp), "ingest_key" ∉ lazyKeys ∧
    l = ops.foldl (FieldOp.run sha256) (Ledger.opened lazyKeys)

/-- `replace_field` retracts, then writes. -/
theorem keyed_replaceField {l : Ledger} (hl : Keyed l) (w : FieldWrite) (oldRestTerms : List Term)
    (revokerAsrtId : String) (revokedAt : Int64) (asrtId : String) (ingestedAt : Int64) :
    Keyed (replaceField sha256 l w oldRestTerms revokerAsrtId revokedAt asrtId ingestedAt).1 := by
  unfold replaceField
  split
  · exact hl
  · exact hl
  · rcases findActiveMatchingClaim l w.predId w.eRef oldRestTerms with _ | old
    · exact hl
    · have hretract := hl.step
        (retractByAsrt_step hl.eager old w.metaData revokerAsrtId revokedAt)
      simp only
      generalize retractByAsrt l old w.metaData revokerAsrtId revokedAt = r at hretract ⊢
      obtain ⟨l₁, e | revoker⟩ := r
      · exact hretract
      · exact hretract.step (setField_step sha256 hretract w asrtId ingestedAt)

/-- **One operation keeps the invariant.** -/
theorem Keyed.run {l : Ledger} (hl : Keyed l) (op : FieldOp) : Keyed (op.run sha256 l) := by
  cases op with
  | setField w asrtId ingestedAt => exact hl.step (setField_step sha256 hl w asrtId ingestedAt)
  | addField w asrtId ingestedAt => exact hl.step (setField_step sha256 hl w asrtId ingestedAt)
  | retractByAsrt revokedAsrtId m revokerAsrtId ingestedAt =>
    exact hl.step (retractByAsrt_step hl.eager revokedAsrtId m revokerAsrtId ingestedAt)
  | replaceField w oldRestTerms revokerAsrtId revokedAt asrtId ingestedAt =>
    exact keyed_replaceField sha256 hl w oldRestTerms revokerAsrtId revokedAt asrtId ingestedAt

/-- **Every reachable ledger is keyed.** -/
theorem Reachable.keyed {l : Ledger} (hl : Reachable sha256 l) : Keyed l := by
  obtain ⟨lazyKeys, ops, heager, rfl⟩ := hl
  suffices hrun : ∀ (ops : List FieldOp) (l : Ledger), Keyed l →
      Keyed (ops.foldl (FieldOp.run sha256) l) from hrun ops _ (keyed_opened heager)
  intro ops
  induction ops with
  | nil => exact fun l hl => hl
  | cons op ops ih => exact fun l hl => ih _ (hl.run sha256 op)

end

end FactGraph.Evidence
