import FactGraph.Entity.Operations
import FactGraph.Evidence.Resubmission
import FactGraph.Lib.Coalesce
import FactGraph.Protocol.Framing

/-!
# What planned operations do to ingest keys

A planned operation puts a write under its ingest key, or lets a claim go. Two writes of one key say
the same (`content_of_key`): the key is a digest of the canonical bytes of what the write says.
-/

namespace FactGraph.Entity

open Protocol Store Check Evidence Coalesce

/-! ## Events -/

/-- The event of an operation that is no retraction. -/
def putEvent (host : Host) (write : Except Fault FieldWrite) (always : Bool) :
    Except Fault (Event String FieldWrite String) := do
  let w ← write
  let (_, key) ← lift (w.prepare host.db.sha256)
  .ok (.put key w always)

/-- What an operation does. The Database route writes an `add` always. -/
def PlannedOp.event (host : Host) (index : SchemaIndex) :
    PlannedOp → Except Fault (Event String FieldWrite String)
  | .recordExists target m => putEvent host (assertionWrite host index target none m) false
  | .set target fieldName value m =>
      putEvent host (assertionWrite host index target (some (fieldName, value)) m) false
  | .add target fieldName value m =>
      putEvent host (assertionWrite host index target (some (fieldName, value)) m) true
  | .retract _ _ assertionId _ => .ok (.gone assertionId)

/-- What a list of operations does. -/
def eventsOf (host : Host) (index : SchemaIndex) (ops : List PlannedOp) :
    Except Fault (List (Event String FieldWrite String)) :=
  mapOk (PlannedOp.event host index) ops

theorem putEvent_ok_iff {host : Host} {write : Except Fault FieldWrite} {always : Bool}
    {e : Event String FieldWrite String} : putEvent host write always = .ok e ↔
      ∃ w m key, write = .ok w ∧ w.prepare host.db.sha256 = .ok (m, key) ∧
        e = .put key w always := by
  unfold putEvent
  simp only [bind_ok_iff, lift_ok_iff]
  constructor
  · rintro ⟨w, hw, ⟨m, key⟩, hprepare, h⟩
    cases h
    exact ⟨w, m, key, hw, hprepare, rfl⟩
  · rintro ⟨w, m, key, hw, hprepare, rfl⟩
    exact ⟨w, hw, (m, key), hprepare, rfl⟩

theorem eventsOf_cons {host : Host} {index : SchemaIndex} {op : PlannedOp} {ops : List PlannedOp}
    {es : List (Event String FieldWrite String)} : eventsOf host index (op :: ops) = .ok es ↔
      ∃ e rest, op.event host index = .ok e ∧ eventsOf host index ops = .ok rest ∧ es = e :: rest := by
  unfold eventsOf
  rw [mapOk, bind_ok_iff]
  simp only [bind_ok_iff]
  constructor
  · rintro ⟨e, he, rest, hrest, h⟩
    cases h
    exact ⟨e, rest, he, hrest, rfl⟩
  · rintro ⟨e, rest, he, hrest, rfl⟩
    exact ⟨e, he, rest, hrest, rfl⟩

/-- The holders the events let go are the targets of the retractions. -/
theorem goneIn_eventsOf {host : Host} {index : SchemaIndex} {ops : List PlannedOp}
    {es : List (Event String FieldWrite String)} (h : eventsOf host index ops = .ok es) :
    goneIn es = revocationTargets ops := by
  induction ops generalizing es with
  | nil =>
    cases h
    rfl
  | cons op ops ih =>
    obtain ⟨e, rest, he, hrest, rfl⟩ := eventsOf_cons.mp h
    cases op with
    | retract target fieldName assertionId m =>
      cases he
      show assertionId :: goneIn rest = assertionId :: revocationTargets ops
      rw [ih hrest]
    | recordExists target m | set target fieldName value m | add target fieldName value m =>
      obtain ⟨w, m, key, _, _, rfl⟩ := putEvent_ok_iff.mp he
      show goneIn rest = revocationTargets ops
      exact ih hrest

/-! ## What a key stands for -/

/-- What a claim says: predicate, reference and canonical bytes of its terms. -/
structure Content where
  predId : String
  eRef : String
  terms : Except StoreErr (List UInt8)
  deriving DecidableEq

def contentOf (c : Claim) : Content := ⟨c.predId, c.eRef, canonicalBytesTupV1 c.restTerms⟩

/-- What a write says. -/
def writeContent (w : FieldWrite) : Content := ⟨w.predId, w.eRef, canonicalBytesTupV1 w.restTerms⟩

/-- The terms that come first. -/
def ingestHeader (predId eRef : String) : List Term :=
  [("string", .leaf (.str "ingest_key_v2")), ("string", .leaf (.str predId)),
    ("entity_ref", .leaf (.str eRef))]

/-- The terms an ingest key is the digest of. -/
def ingestTerms (w : FieldWrite) (m : MetaDict) : List Term :=
  let material (keys : List String) : Datum :=
    .leaf (.bytes (utf8 (jsonFields (keys.map fun key => (key, m.get key)))))
  ingestHeader w.predId w.eRef ++ w.restTerms ++
    [("bytes", material ["source", "source_loc", "trace_id"]),
      ("bytes", material ["valid_from", "valid_to", "version"])]

/-- The bytes a write is told apart by. -/
def ingestBytes (w : FieldWrite) : Except StoreErr (List UInt8) := do
  let m ← normalizeMeta w.metaData
  canonicalBytesTupV1 (ingestTerms w m)

/-- The digest tells the writes apart. -/
def CollisionFree (sha256 : List UInt8 → List UInt8) (ws : List FieldWrite) : Prop :=
  ∀ v ∈ ws, ∀ w ∈ ws, ∀ x y, ingestBytes v = .ok x → ingestBytes w = .ok y →
    sha256 x = sha256 y → x = y

theorem ingestBytes_of_prepare {sha256 : List UInt8 → List UInt8} {w : FieldWrite} {m : MetaDict}
    {key : String} (h : w.prepare sha256 = .ok (m, key)) :
    ∃ raw, ingestBytes w = .ok raw ∧ key = "sha256:" ++ hexdigest (sha256 raw) := by
  unfold FieldWrite.prepare at h
  obtain ⟨_, h⟩ := bind_unit_ok_iff.mp h
  obtain ⟨m', hm, h⟩ := bind_ok_iff.mp h
  obtain ⟨key', hkey, h⟩ := bind_ok_iff.mp h
  cases h
  unfold computeIngestKey at hkey
  obtain ⟨_, hkey⟩ := bind_unit_ok_iff.mp hkey
  obtain ⟨_, hkey⟩ := bind_unit_ok_iff.mp hkey
  obtain ⟨_, hkey⟩ := bind_unit_ok_iff.mp hkey
  obtain ⟨raw, hraw, hkey⟩ := bind_ok_iff.mp hkey
  cases hkey
  refine ⟨raw, ?_, rfl⟩
  unfold ingestBytes
  rw [hm]
  exact hraw

/-- The first frames of a key tell the predicate and the reference. -/
theorem header_inj {predId eRef predId' eRef' : String} {raw : List UInt8}
    (h : termsBytes (ingestHeader predId eRef) = .ok raw)
    (h' : termsBytes (ingestHeader predId' eRef') = .ok raw) : predId = predId' ∧ eRef = eRef' := by
  simp only [ingestHeader, termsBytes, bind_ok_iff, Except.ok.injEq] at h h'
  obtain ⟨a, ha, _, ⟨p, hp, _, ⟨e, he, _, rfl, rfl⟩, rfl⟩, h⟩ := h
  obtain ⟨a', ha', _, ⟨p', hp', _, ⟨e', he', _, rfl, rfl⟩, rfl⟩, h'⟩ := h'
  obtain ⟨rfl, hrest⟩ := termBytes_cancel ha ha' (h.trans h'.symm)
  obtain ⟨rfl, htail⟩ := termBytes_cancel hp hp' hrest
  obtain ⟨rfl, _⟩ := termBytes_cancel he he' htail
  obtain ⟨x, hx, hx'⟩ := encode_of_termBytes hp hp'
  obtain ⟨y, hy, hy'⟩ := encode_of_termBytes he he'
  have hpred : utf8 predId = utf8 predId' := Except.ok.inj (hx.trans hx'.symm)
  refine ⟨utf8_injective hpred, ?_⟩
  obtain ⟨s, hs, hsy⟩ := map_ok_iff.mp hy
  obtain ⟨s', hs', hsy'⟩ := map_ok_iff.mp hy'
  cases (requireEntityRef_ok hs).1
  cases (requireEntityRef_ok hs').1
  exact utf8_injective (hsy.trans hsy'.symm)

/-- The bytes a write is told apart by give away what it says. -/
theorem content_of_ingestBytes {v w : FieldWrite} {raw : List UInt8}
    (hv : ingestBytes v = .ok raw) (hw : ingestBytes w = .ok raw) :
    writeContent v = writeContent w := by
  obtain ⟨m, _, hv⟩ := bind_ok_iff.mp hv
  obtain ⟨m', _, hw⟩ := bind_ok_iff.mp hw
  obtain ⟨hlength, hbytes⟩ := canonicalBytesTupV1_inj hv hw
  obtain ⟨count, body, _, hbody, _⟩ := canonicalBytesTupV1_ok_iff.mp hv
  have hbody' := hbytes ▸ hbody
  have hheader : (ingestHeader v.predId v.eRef).length = (ingestHeader w.predId w.eRef).length := rfl
  have hrest : v.restTerms.length = w.restTerms.length := by
    simpa [ingestTerms, ingestHeader] using hlength
  -- the frames of the predicate, the reference and the terms, one after the other
  unfold ingestTerms at hbody hbody'
  rw [List.append_assoc] at hbody hbody'
  obtain ⟨a, b, ha, hb, rfl⟩ := termsBytes_append.mp hbody
  obtain ⟨a', b', ha', hb', h⟩ := termsBytes_append.mp hbody'
  obtain ⟨rfl, rfl⟩ := termsBytes_cancel hheader ha ha' h
  obtain ⟨c, x, hc, _, rfl⟩ := termsBytes_append.mp hb
  obtain ⟨c', x', hc', _, h⟩ := termsBytes_append.mp hb'
  obtain ⟨rfl, _⟩ := termsBytes_cancel hrest hc hc' h
  obtain ⟨hpred, href⟩ := header_inj ha ha'
  have hterms : canonicalBytesTupV1 v.restTerms = canonicalBytesTupV1 w.restTerms := by
    unfold canonicalBytesTupV1
    rw [hrest, hc, hc']
  unfold writeContent
  rw [hpred, href, hterms]

/-- **Two writes of one key say the same.** -/
theorem content_of_key {sha256 : List UInt8 → List UInt8} {ws : List FieldWrite}
    (hsha : CollisionFree sha256 ws) {v w : FieldWrite} (hv : v ∈ ws) (hw : w ∈ ws)
    {m m' : MetaDict} {key : String} (hkey : v.prepare sha256 = .ok (m, key))
    (hkey' : w.prepare sha256 = .ok (m', key)) : writeContent v = writeContent w := by
  obtain ⟨x, hx, rfl⟩ := ingestBytes_of_prepare hkey
  obtain ⟨y, hy, hdigest⟩ := ingestBytes_of_prepare hkey'
  have hxy : x = y := by
    apply hsha v hv w hw x y hx hy
    exact hexdigest_inj ((String.append_right_inj _).mp hdigest)
  exact content_of_ingestBytes hx (hxy ▸ hy)

/-!
## The Store route

Operations that are applied one by one write the keys `Coalesce.stepwise` writes: a write goes
through if no holder of its key is left. `At` is where a run stands: what it wrote, and which claims
it let go.
-/

/-! ## Ledgers -/

/-- The ids the host hands out are new: no claim, revocation or metadata row of the ledger has one,
and no retraction names one. -/
structure Fresh (l : Ledger) (supply : Supply) (ops : List PlannedOp) : Prop where
  unwritten : ∀ i, supply.ids i ∉ l.writtenIds
  undescribed : ∀ i, ∀ r ∈ l.indexes.metaRowsData, r.asrtId ≠ supply.ids i
  unnamed : ∀ i, supply.ids i ∉ revocationTargets ops

/-- The ids that keep a key in use. -/
def holders (l : Ledger) (key : String) : List String :=
  (Buckets.get l.indexes.metaIngestKeyAsrtIds key).filter fun a => (l.acceptIngest a).isSome

/-- What the active claims of a ledger say. -/
def activeContents (l : Ledger) : List Content :=
  (l.indexes.claims.filter fun c => !l.hasActiveRevocation c.asrtId).map contentOf

theorem mem_bucket_iff {l : Ledger} (hl : l.Sound) {key a : String} :
    a ∈ Buckets.get l.indexes.metaIngestKeyAsrtIds key ↔ (a, key) ∈ ingestKeys l := by
  rw [hl.coherent.ingestKeys, mem_ingestKeys, List.mem_map]
  constructor
  · rintro ⟨r, hr, rfl⟩
    obtain ⟨hrow, hkey⟩ := List.mem_filter.mp hr
    exact ⟨r, hrow, rfl, by simpa using hkey⟩
  · rintro ⟨r, hr, rfl, hkey⟩
    exact ⟨r, List.mem_filter.mpr ⟨hr, by simpa using hkey⟩, rfl⟩

theorem findIngestKey_none_iff {l : Ledger} (hl : l.Sound) {key : String} :
    l.findIngestKey key = none ↔ ∀ a, (a, key) ∈ ingestKeys l → l.acceptIngest a = none := by
  unfold Ledger.findIngestKey
  rw [List.findSome?_eq_none_iff]
  exact forall_congr' fun a => imp_congr (mem_bucket_iff hl) Iff.rfl

/-- Only claims are revoked. -/
theorem claim_of_revoked {l : Ledger} (hl : l.Sound) {a : String}
    (h : l.hasActiveRevocation a = true) : ∃ c ∈ l.indexes.claims, c.asrtId = a := by
  obtain ⟨r, hr, rfl⟩ := (hl.coherent.revoked a).mp (of_decide_eq_true h)
  exact hl.targeted r hr

theorem findRevoker_none_iff {l : Ledger} (hl : l.Sound) {a : String} :
    l.findRevoker a = none ↔ l.hasActiveRevocation a = false := by
  unfold Ledger.findRevoker
  rw [hl.coherent.firstRevoker, Option.map_eq_none_iff, List.find?_eq_none,
    hasActiveRevocation_false_iff hl]
  simp

theorem fresh_ne_claim {l : Ledger} (hl : l.Sound) {supply : Supply} {ops : List PlannedOp}
    (hfresh : Fresh l supply ops) (i : Nat) {c : Claim} (hc : c ∈ l.indexes.claims) :
    c.asrtId ≠ supply.ids i := by
  intro h
  exact hfresh.unwritten i (h ▸ mem_writtenIds hl hc)

/-! ## What one write does -/

/-- What a write of a field that returns does. -/
inductive Wrote (l : Ledger) (w : FieldWrite) (key asrtId : String) : Ledger → Prop
  | answered (taken : l.findIngestKey key ≠ none) : Wrote l w key asrtId l
  | written {l' : Ledger} (step : l.Step l') (free : l.findIngestKey key = none)
      (lazyMetaKeys : l'.lazyMetaKeys = l.lazyMetaKeys)
      (claims : l'.indexes.claims = l.indexes.claims ++ [w.claim asrtId])
      (keys : ingestKeys l' = ingestKeys l ++ [(asrtId, key)])
      (revokes : l'.indexes.revokesData = l.indexes.revokesData) : Wrote l w key asrtId l'

theorem wrote_of_setField {sha256 : List UInt8 → List UInt8} {l l' : Ledger}
    (hl : l.isLazy "ingest_key" = false) {w : FieldWrite} {m : MetaDict} {key asrtId id : String}
    {now : Int64} (hw : w.prepare sha256 = .ok (m, key))
    (h : setField sha256 l w asrtId now = (l', .ok id)) : Wrote l w key asrtId l' := by
  rcases hargs : w.assertionArgs m key asrtId now with e | args
  · unfold setField at h
    simp [hw, hargs] at h
  · obtain ⟨parts, rfl⟩ := parts_of_ok hargs
    rw [setField_eq hw hargs] at h
    have hstep := l.step_appendAssertion (parts.args key now)
    have houtcome := fieldOutcome parts hl (prepared_of_ok hw) now
    generalize l.appendAssertion (parts.args key now) = r at hstep houtcome h
    obtain ⟨rfl, hok⟩ := Prod.ext_iff.mp h
    cases houtcome with
    | refused e => cases hok
    | answered htaken => exact .answered (by rw [htaken]; simp)
    | written _ free lazyMetaKeys claims keys revokes =>
      exact .written hstep free lazyMetaKeys claims keys revokes

/-- A write that returns was prepared. -/
theorem put_of_write {host : Host} {l l' : Ledger} {write : Except Fault FieldWrite}
    {asrtId id : String} {now : Int64} (always : Bool)
    (h : (match write with
      | .error e => (l, .error e)
      | .ok w => liftRun (setField host.db.sha256 l w asrtId now)) = (l', .ok id)) :
    ∃ w m key, putEvent host write always = .ok (.put key w always) ∧
      w.prepare host.db.sha256 = .ok (m, key) ∧
      setField host.db.sha256 l w asrtId now = (l', .ok id) := by
  cases write with
  | error e => cases h
  | ok w =>
    obtain ⟨rfl, hok⟩ := Prod.ext_iff.mp h
    have hset := lift_ok_iff.mp hok
    rcases hprepare : w.prepare host.db.sha256 with e | ⟨m, key⟩
    · unfold setField at hset
      simp [hprepare] at hset
    · exact ⟨w, m, key, putEvent_ok_iff.mpr ⟨w, m, key, rfl, hprepare, rfl⟩, hprepare,
        Prod.ext rfl hset⟩

/-- An operation that returns is a write of a field or a retraction. -/
theorem event_of_applyOp {host : Host} {index : SchemaIndex} {l l' : Ledger} {op : PlannedOp}
    {asrtId id : String} {now : Int64} (h : applyOp host index l op asrtId now = (l', .ok id)) :
    (∃ w m key always, op.event host index = .ok (.put key w always) ∧
      w.prepare host.db.sha256 = .ok (m, key) ∧
      setField host.db.sha256 l w asrtId now = (l', .ok id)) ∨
    ∃ target m, op.event host index = .ok (.gone target) ∧ target ∈ revocationTargets [op] ∧
      retractByAsrt l target m asrtId now = (l', .ok id) := by
  cases op with
  | retract target fieldName assertionId m =>
    unfold applyOp at h
    cases hencoded : encodedRef host index target with
    | error e => simp [hencoded] at h
    | ok eRef =>
      cases hguard : checkRetractAllowed index l assertionId with
      | error e => simp [hencoded, hguard] at h
      | ok u =>
        simp only [hencoded, hguard, liftRun] at h
        obtain ⟨rfl, hok⟩ := Prod.ext_iff.mp h
        exact .inr ⟨assertionId, metaArg m, rfl, List.mem_singleton.mpr rfl,
          Prod.ext rfl (lift_ok_iff.mp hok)⟩
  | recordExists target m =>
    obtain ⟨w, m', key, hevent⟩ := put_of_write false h
    exact .inl ⟨w, m', key, false, hevent⟩
  | set target fieldName value m =>
    obtain ⟨w, m', key, hevent⟩ := put_of_write false h
    exact .inl ⟨w, m', key, false, hevent⟩
  | add target fieldName value m =>
    obtain ⟨w, m', key, hevent⟩ := put_of_write true h
    exact .inl ⟨w, m', key, true, hevent⟩

/-! ## Runs -/

/-- Where a run from `l₀` stands: the writes that went through, with their keys and ids, and the
claims that were let go. -/
structure At (l₀ : Ledger) (supply : Supply) (gone : List String)
    (written : List (String × FieldWrite × String)) (l : Ledger) : Prop where
  sound : l.Sound
  eager : l.isLazy "ingest_key" = false
  claims : l.indexes.claims = l₀.indexes.claims ++ written.map fun x => x.2.1.claim x.2.2
  keys : ingestKeys l = ingestKeys l₀ ++ written.map fun x => (x.2.2, x.1)
  ids : ∀ x ∈ written, ∃ i, x.2.2 = supply.ids i
  known : ∀ a ∈ gone, ∃ c ∈ l₀.indexes.claims, c.asrtId = a
  revoked : ∀ a, l.hasActiveRevocation a = true ↔ l₀.hasActiveRevocation a = true ∨ a ∈ gone
  revokers : ∀ a, (∀ i, a ≠ supply.ids i) →
    (a ∈ l.indexes.revokerAsrtIds ↔ a ∈ l₀.indexes.revokerAsrtIds)

section

variable {host : Host} {index : SchemaIndex} {l₀ l : Ledger} {supply : Supply}
  {ops : List PlannedOp} {gone : List String} {written : List (String × FieldWrite × String)}

theorem At.refl (hl : l₀.Sound) (heager : l₀.isLazy "ingest_key" = false) :
    At l₀ supply [] [] l₀ where
  sound := hl
  eager := heager
  claims := (List.append_nil _).symm
  keys := (List.append_nil _).symm
  ids := by simp
  known := by simp
  revoked := by simp
  revokers _ _ := Iff.rfl

/-- A claim of before is a claim still. -/
theorem At.claim_old (h : At l₀ supply gone written l) {c : Claim} (hc : c ∈ l₀.indexes.claims) :
    c ∈ l.indexes.claims := by
  rw [h.claims]
  exact List.mem_append_left _ hc

/-- A holder of before holds on until it is let go. -/
theorem At.accept_old (h : At l₀ supply gone written l) (hl₀ : l₀.Sound)
    (hfresh : Fresh l₀ supply ops) {a key : String} (ha : (a, key) ∈ ingestKeys l₀) :
    l.acceptIngest a = none ↔ l₀.acceptIngest a = none ∨ a ∈ gone := by
  obtain ⟨r, hr, rfl, _⟩ := mem_ingestKeys.mp ha
  have hnew : ∀ i, r.asrtId ≠ supply.ids i := fun i => hfresh.undescribed i r hr
  by_cases hclaim : ∃ c ∈ l₀.indexes.claims, c.asrtId = r.asrtId
  · have hclaim' : ∃ c ∈ l.indexes.claims, c.asrtId = r.asrtId :=
      hclaim.imp fun c hc => ⟨h.claim_old hc.1, hc.2⟩
    unfold Ledger.acceptIngest
    rw [if_pos ((Ledger.Sound.has_claim_iff h.sound).mpr hclaim'), if_pos ((Ledger.Sound.has_claim_iff hl₀).mpr hclaim)]
    have hnone : ∀ m : Ledger, (if m.hasActiveRevocation r.asrtId then none else some r.asrtId) =
        none ↔ m.hasActiveRevocation r.asrtId = true := by
      intro m
      cases m.hasActiveRevocation r.asrtId <;> simp
    rw [hnone, hnone]
    exact h.revoked r.asrtId
  · have hclaim' : ¬∃ c ∈ l.indexes.claims, c.asrtId = r.asrtId := by
      intro ⟨c, hc, hid⟩
      rw [h.claims] at hc
      rcases List.mem_append.mp hc with hc | hc
      · exact hclaim ⟨c, hc, hid⟩
      · obtain ⟨x, hx, rfl⟩ := List.mem_map.mp hc
        obtain ⟨i, hi⟩ := h.ids x hx
        exact hnew i (hid.symm.trans hi)
    have hgone : r.asrtId ∉ gone := fun hgone => hclaim (h.known _ hgone)
    unfold Ledger.acceptIngest
    rw [if_neg (hclaim' ∘ (Ledger.Sound.has_claim_iff h.sound).mp), if_neg (hclaim ∘ (Ledger.Sound.has_claim_iff hl₀).mp)]
    simp [h.revokers _ hnew, hgone]

/-- A new claim is active. -/
theorem At.active_new (h : At l₀ supply gone written l) (hl₀ : l₀.Sound)
    (hfresh : Fresh l₀ supply ops) {x : String × FieldWrite × String} (hx : x ∈ written) :
    l₀.hasActiveRevocation x.2.2 = false ∧ x.2.2 ∉ gone := by
  obtain ⟨i, hi⟩ := h.ids x hx
  constructor
  · rw [← Bool.not_eq_true]
    intro hrevoked
    obtain ⟨c, hc, hid⟩ := claim_of_revoked hl₀ hrevoked
    exact fresh_ne_claim hl₀ hfresh i hc (hid.trans hi)
  · intro hgone
    obtain ⟨c, hc, hid⟩ := h.known _ hgone
    exact fresh_ne_claim hl₀ hfresh i hc (hid.trans hi)

/-- **When a key is free** in a run: it was not written, and its holders of before are gone. -/
theorem At.free_iff (h : At l₀ supply gone written l) (hl₀ : l₀.Sound)
    (hfresh : Fresh l₀ supply ops) (key : String) : l.findIngestKey key = none ↔
      key ∉ written.map Prod.fst ∧ ∀ i ∈ holders l₀ key, i ∈ gone := by
  rw [findIngestKey_none_iff h.sound, h.keys]
  constructor
  · intro hnone
    constructor
    · intro hmem
      obtain ⟨x, hx, rfl⟩ := List.mem_map.mp hmem
      have hclaim : ∃ c ∈ l.indexes.claims, c.asrtId = x.2.2 :=
        ⟨x.2.1.claim x.2.2, by rw [h.claims]; exact List.mem_append_right _ (List.mem_map_of_mem hx),
          rfl⟩
      obtain ⟨hold, hgone⟩ := h.active_new hl₀ hfresh hx
      have hactive : l.hasActiveRevocation x.2.2 = false := by
        rw [← Bool.not_eq_true, h.revoked, hold]
        simp [hgone]
      have haccept := hnone x.2.2 (List.mem_append_right _ (List.mem_map.mpr ⟨x, hx, rfl⟩))
      unfold Ledger.acceptIngest at haccept
      rw [if_pos ((Ledger.Sound.has_claim_iff h.sound).mpr hclaim), hactive] at haccept
      cases haccept
    · intro a ha
      obtain ⟨hbucket, haccept⟩ := List.mem_filter.mp ha
      have hkey := (mem_bucket_iff hl₀).mp hbucket
      rcases (h.accept_old hl₀ hfresh hkey).mp (hnone a (List.mem_append_left _ hkey)) with hold | hgone
      · rw [hold] at haccept
        cases haccept
      · exact hgone
  · intro ⟨hunwritten, hheld⟩ a ha
    rcases List.mem_append.mp ha with hold | hnew
    · rw [h.accept_old hl₀ hfresh hold]
      cases haccept : l₀.acceptIngest a with
      | none => exact .inl rfl
      | some b =>
        refine .inr (hheld a (List.mem_filter.mpr ⟨(mem_bucket_iff hl₀).mpr hold, ?_⟩))
        rw [haccept]
        rfl
    · obtain ⟨x, hx, heq⟩ := List.mem_map.mp hnew
      exact absurd (List.mem_map.mpr ⟨x, hx, (Prod.ext_iff.mp heq).2⟩) hunwritten

/-- A write that finds its key free. -/
theorem At.put (h : At l₀ supply gone written l) {w : FieldWrite} {key : String} {i : Nat}
    {l' : Ledger} (step : l.Step l') (lazyMetaKeys : l'.lazyMetaKeys = l.lazyMetaKeys)
    (claims : l'.indexes.claims = l.indexes.claims ++ [w.claim (supply.ids i)])
    (keys : ingestKeys l' = ingestKeys l ++ [(supply.ids i, key)])
    (revokes : l'.indexes.revokesData = l.indexes.revokesData) :
    At l₀ supply gone (written ++ [(key, w, supply.ids i)]) l' := by
  have hsound := h.sound.step step
  refine ⟨hsound, ?_, ?_, ?_, ?_, h.known, ?_, ?_⟩
  · unfold Ledger.isLazy
    rw [lazyMetaKeys]
    exact h.eager
  · rw [claims, h.claims, List.map_append, List.append_assoc]
    rfl
  · rw [keys, h.keys, List.map_append, List.append_assoc]
    rfl
  · intro x hx
    rcases List.mem_append.mp hx with hx | hx
    · exact h.ids x hx
    · rw [List.mem_singleton.mp hx]
      exact ⟨i, rfl⟩
  · intro a
    rw [← h.revoked]
    unfold Ledger.hasActiveRevocation
    rw [decide_eq_true_iff, decide_eq_true_iff, hsound.coherent.revoked, h.sound.coherent.revoked,
      revokes]
  · intro a ha
    rw [← h.revokers a ha, hsound.coherent.revokers, h.sound.coherent.revokers, revokes]

/-- A retraction lets its target go. -/
theorem At.letGo (h : At l₀ supply gone written l) {target id : String} {i : Nat}
    (hnamed : ∀ j, target ≠ supply.ids j) {l' : Ledger}
    (hr : RetractOutcome l target (supply.ids i) (l', .ok id)) :
    At l₀ supply (target :: gone) written l' := by
  -- the target is a claim of before, as no new claim is named
  have hknown : (∃ c ∈ l.indexes.claims, c.asrtId = target) →
      ∃ c ∈ l₀.indexes.claims, c.asrtId = target := by
    intro ⟨c, hc, hid⟩
    rw [h.claims] at hc
    rcases List.mem_append.mp hc with hc | hc
    · exact ⟨c, hc, hid⟩
    · obtain ⟨x, hx, rfl⟩ := List.mem_map.mp hc
      obtain ⟨j, hj⟩ := h.ids x hx
      exact absurd (hid.symm.trans hj) (hnamed j)
  cases hr with
  | retracted hfound =>
    have hrevoked : l.hasActiveRevocation target = true := by
      rw [← Bool.not_eq_false, ← findRevoker_none_iff h.sound, hfound]
      simp
    refine ⟨h.sound, h.eager, h.claims, h.keys, h.ids, ?_, ?_, h.revokers⟩
    · intro a ha
      rcases List.mem_cons.mp ha with rfl | ha
      · exact hknown (claim_of_revoked h.sound hrevoked)
      · exact h.known a ha
    · intro a
      rw [h.revoked, List.mem_cons]
      constructor
      · exact fun ha => ha.imp_right .inr
      · rintro (hold | rfl | hgone)
        · exact .inl hold
        · exact (h.revoked _).mp hrevoked
        · exact .inr hgone
  | written step lazyMetaKeys claims keys revokes =>
    have hsound := h.sound.step step
    have hmem : ∀ a, l'.hasActiveRevocation a = true ↔ l.hasActiveRevocation a = true ∨ a = target := by
      intro a
      unfold Ledger.hasActiveRevocation
      rw [decide_eq_true_iff, decide_eq_true_iff, hsound.coherent.revoked, h.sound.coherent.revoked,
        revokes]
      simp [or_and_right, exists_or, eq_comm]
    have htarget : ∃ c ∈ l.indexes.claims, c.asrtId = target := by
      rw [← claims]
      exact claim_of_revoked hsound ((hmem target).mpr (.inr rfl))
    refine ⟨hsound, ?_, claims.trans h.claims, keys.trans h.keys, h.ids, ?_, ?_, ?_⟩
    · unfold Ledger.isLazy
      rw [lazyMetaKeys]
      exact h.eager
    · intro a ha
      rcases List.mem_cons.mp ha with rfl | ha
      · exact hknown htarget
      · exact h.known a ha
    · intro a
      rw [hmem, h.revoked, List.mem_cons, or_assoc, or_comm (a := a ∈ gone)]
    · intro a ha
      rw [← h.revokers a ha, hsound.coherent.revokers, h.sound.coherent.revokers, revokes]
      simp only [List.mem_append, List.mem_singleton, or_and_right, exists_or, exists_eq_left]
      simp [Ne.symm (ha i)]

/-- **One operation**: a write goes through if its key is free, and a retraction lets its target
go. -/
theorem At.step (h : At l₀ supply gone written l) (hl₀ : l₀.Sound) (hfresh : Fresh l₀ supply ops)
    {op : PlannedOp} (hop : ∀ a ∈ revocationTargets [op], a ∈ revocationTargets ops) {i : Nat}
    {now : Int64} {l' : Ledger} {id : String}
    (happly : applyOp host index l op (supply.ids i) now = (l', .ok id)) :
    (∃ w key always, op.event host index = .ok (.put key w always) ∧
      ((key ∉ written.map Prod.fst ∧ ∀ a ∈ holders l₀ key, a ∈ gone) ∧
          At l₀ supply gone (written ++ [(key, w, supply.ids i)]) l' ∨
        ¬(key ∉ written.map Prod.fst ∧ ∀ a ∈ holders l₀ key, a ∈ gone) ∧
          At l₀ supply gone written l')) ∨
    ∃ target, op.event host index = .ok (.gone target) ∧ At l₀ supply (target :: gone) written l' := by
  rcases event_of_applyOp happly with ⟨w, m, key, always, hevent, hw, hset⟩ | ⟨target, m, hevent, htarget, hretract⟩
  · refine .inl ⟨w, key, always, hevent, ?_⟩
    cases wrote_of_setField h.eager hw hset with
    | answered taken => exact .inr ⟨fun hfree => taken ((h.free_iff hl₀ hfresh key).mpr hfree), h⟩
    | written step free lazyMetaKeys claims keys revokes =>
      exact .inl ⟨(h.free_iff hl₀ hfresh key).mp free, h.put step lazyMetaKeys claims keys revokes⟩
  · refine .inr ⟨target, hevent, ?_⟩
    have hnamed : ∀ j, target ≠ supply.ids j := fun j hj =>
      hfresh.unnamed j (hj ▸ hop target htarget)
    have houtcome := retractOutcome h.eager target m (supply.ids i) now
    rw [hretract] at houtcome
    exact h.letGo hnamed houtcome

/-- **A run of operations** writes what `stepwise` writes. -/
theorem At.run (hl₀ : l₀.Sound) (hfresh : Fresh l₀ supply ops) :
    ∀ (rest : List PlannedOp) (opIndex : Nat) {l l' : Ledger} {gone seen : List String}
      {written : List (String × FieldWrite × String)} {applied : List AppliedOp},
      (∀ a ∈ revocationTargets rest, a ∈ revocationTargets ops) →
      At l₀ supply gone written l → (∀ key, key ∈ seen ↔ key ∈ written.map Prod.fst) →
      applyOps host index l supply opIndex rest = (l', ⟨applied, []⟩) →
      ∃ es more, eventsOf host index rest = .ok es ∧
        At l₀ supply ((goneIn es).reverse ++ gone) (written ++ more) l' ∧
        (more.map fun x => (x.1, x.2.1)) = stepwise (holders l₀) gone seen es := by
  intro rest
  induction rest with
  | nil =>
    intro opIndex l l' gone seen written applied _ h _ happly
    cases happly
    exact ⟨[], [], rfl, by simpa [goneIn] using h, rfl⟩
  | cons op rest ih =>
    intro opIndex l l' gone seen written applied htargets h hseen happly
    have hsplit : revocationTargets (op :: rest) = revocationTargets [op] ++ revocationTargets rest := by
      unfold revocationTargets
      rw [← List.singleton_append, List.filterMap_append]
    rw [hsplit] at htargets
    have htargets' : ∀ a ∈ revocationTargets rest, a ∈ revocationTargets ops := fun a ha =>
      htargets a (List.mem_append_right _ ha)
    have hop : ∀ a ∈ revocationTargets [op], a ∈ revocationTargets ops := fun a ha =>
      htargets a (List.mem_append_left _ ha)
    unfold applyOps at happly
    rcases hone : applyOp host index l op (supply.ids opIndex) (supply.times opIndex) with ⟨l₁, e | id⟩
    · simp [hone] at happly
    · simp only [hone] at happly
      rcases hrest : applyOps host index l₁ supply (opIndex + 1) rest with ⟨l₂, applied₂, errors⟩
      rw [hrest] at happly
      cases happly
      -- an operation writes a new claim, is answered by one, or retracts
      rcases h.step hl₀ hfresh hop hone with ⟨w, key, always, hevent, hput⟩ | ⟨target, hevent, h₁⟩
      -- the keys the loop has seen are those it has written under
      · have hcond : (key ∉ seen ∧ ∀ a ∈ holders l₀ key, a ∈ gone) ↔
            (key ∉ written.map Prod.fst ∧ ∀ a ∈ holders l₀ key, a ∈ gone) := by
          rw [hseen]
        rcases hput with ⟨hfree, h₁⟩ | ⟨htaken, h₁⟩
        · have hseen' : ∀ k, k ∈ key :: seen ↔
              k ∈ (written ++ [(key, w, supply.ids opIndex)]).map Prod.fst := by
            intro k
            rw [List.mem_cons, hseen, List.map_append, List.mem_append, or_comm]
            simp
          obtain ⟨es, more, hes, hat, hmore⟩ := ih (opIndex + 1) htargets' h₁ hseen' hrest
          refine ⟨.put key w always :: es, (key, w, supply.ids opIndex) :: more, ?_, ?_, ?_⟩
          · exact eventsOf_cons.mpr ⟨_, _, hevent, hes, rfl⟩
          · rw [List.append_assoc] at hat
            exact hat
          · unfold stepwise
            rw [if_pos (hcond.mpr hfree), List.map_cons, hmore]
        · obtain ⟨es, more, hes, hat, hmore⟩ := ih (opIndex + 1) htargets' h₁ hseen hrest
          refine ⟨.put key w always :: es, more, ?_, hat, ?_⟩
          · exact eventsOf_cons.mpr ⟨_, _, hevent, hes, rfl⟩
          · unfold stepwise
            rw [if_neg (htaken ∘ hcond.mp), hmore]
      · obtain ⟨es, more, hes, hat, hmore⟩ := ih (opIndex + 1) htargets' h₁ hseen hrest
        refine ⟨.gone target :: es, more, ?_, ?_, hmore⟩
        · exact eventsOf_cons.mpr ⟨_, _, hevent, hes, rfl⟩
        · have hgone : (goneIn (Event.gone target :: es : List (Event String FieldWrite String))).reverse ++
              gone = (goneIn es).reverse ++ (target :: gone) := by
            simp [goneIn]
          rw [hgone]
          exact hat

end

end FactGraph.Entity
