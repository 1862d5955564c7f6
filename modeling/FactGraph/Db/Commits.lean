import FactGraph.Db.Accepted
import FactGraph.Store.Heads

/-!
# A commit that goes through

On a database whose head can be read, a commit of assertions goes through if each of them can be
prepared and the ids are new (`commitChanges_ok`), and the head can be read again. So a database that
was created and committed to in this way can be committed to again.
-/

namespace FactGraph.Db

open Protocol Store Check Session Indexes Evidence

/-! ## The batch -/

/-- The ledger does not know the id, in its tables or in memory. -/
structure Unused (l : Ledger) (asrtId : String) : Prop where
  unwritten : asrtId ∉ l.writtenIds
  undescribed : ∀ r ∈ l.tables.claimMeta.rows, r.asrtId ≠ asrtId
  unknown : l.isKnownAsrtId asrtId = false

/-- An item of a batch whose rows can be inserted. -/
structure Insertable (item : LedgerAssertionWrite) : Prop where
  claim : item.claim.Storable
  user : startsWith systemPrefix item.claim.predId = false
  args : ∃ rows, claimArgsFromRestTerms item.claim.restTerms = .ok rows
  keys : (item.metaRows.map (·.key.text)).Nodup
  encodable : Ledger.Encodable item.metaRows
  annotations : annotationCompatibilityMetaRows item.annotationRows item.metaRows = .ok []

/-- New claims are inserted, one after the other. -/
theorem insertAssertions_ok {n : Nat} : ∀ {items : List LedgerAssertionWrite} (op : Nat)
    {t : Tables}, (∀ item ∈ items, Insertable item) → (items.map (·.claim.asrtId)).Nodup →
    (∀ item ∈ items, item.claim.asrtId ∉ t.claims.rows.map (·.asrtId) ∧
      ∀ r ∈ t.claimMeta.rows, r.asrtId ≠ item.claim.asrtId) →
    ∃ t', Batch.insertAssertions n op t items = .ok t' := by
  intro items
  induction items with
  | nil => exact fun op t _ _ _ => ⟨t, rfl⟩
  | cons item items ih =>
    intro op t hitems hnodup hfresh
    obtain ⟨hfirst, hrest⟩ := List.nodup_cons.mp hnodup
    have hitem := hitems item List.mem_cons_self
    obtain ⟨hid, hrows⟩ := hfresh item List.mem_cons_self
    obtain ⟨t₁, ht₁, hids₁, hrows₁⟩ := Ledger.insertAssertion_of_fresh (n := n) hitem.claim hid
      (fun r hr heq => absurd heq (hrows r hr)) hitem.keys hitem.encodable hitem.annotations
    unfold Batch.insertAssertions
    rw [ht₁, ok_bind]
    apply ih (op + 1) (fun x hx => hitems x (List.mem_cons_of_mem _ hx)) hrest
    intro x hx
    obtain ⟨hxid, hxrows⟩ := hfresh x (List.mem_cons_of_mem _ hx)
    -- the ids of the items are different
    have hne : x.claim.asrtId ≠ item.claim.asrtId := fun heq =>
      hfirst (List.mem_map.mpr ⟨x, hx, heq⟩)
    constructor
    · rw [hids₁, List.mem_append, List.mem_singleton]
      exact not_or.mpr ⟨hxid, hne⟩
    · intro r hr heq
      rcases hrows₁ r hr with hold | hnew
      · exact hxrows r hold heq
      · exact hne (heq.symm.trans hnew)

/-- A batch of assertions that passes the checks is written. -/
theorem commitBatch_ok {l : Ledger} {b : Batch} {n : Nat} (hcheck : b.check l = .ok n)
    (hrevocations : b.revocations = []) (happends : b.metaAppends = [])
    (hhead : Dict.get? l.tables.ledgerMeta "head_tx_id" = b.expectedHeadTxId)
    (hitems : ∀ item ∈ b.mergedAssertions, Insertable item)
    (hnodup : (b.mergedAssertions.map (·.claim.asrtId)).Nodup)
    (hunused : ∀ item ∈ b.mergedAssertions, Unused l item.claim.asrtId) :
    ∃ l', l.commitBatch b = (l', .ok ()) := by
  have hnew : each (fun a => require (!l.isKnownAsrtId a)
      (StoreErr.valueError s!"duplicate asrt_id: {a}")) (b.newClaimIds ++ b.newRevokerIds) = .ok () := by
    apply each_ok_iff.mpr
    intro a ha
    rcases List.mem_append.mp ha with ha | ha
    · obtain ⟨item, hitem, rfl⟩ := List.mem_map.mp ha
      have hmerged : item.claim ∈ b.mergedAssertions.map (·.claim) := by
        rw [Batch.mergedAssertions_claims]
        exact List.mem_map_of_mem hitem
      obtain ⟨x, hx, hclaim⟩ := List.mem_map.mp hmerged
      apply require_of_true
      rw [← hclaim, (hunused x hx).unknown]
      rfl
    · unfold Batch.newRevokerIds at ha
      rw [hrevocations] at ha
      cases ha
  have hswap := Batch.swapHead_ok_iff.mpr ⟨hhead, rfl⟩
  obtain ⟨t, ht⟩ := insertAssertions_ok (n := n) 0
    (t := { l.tables with ledgerMeta := Dict.set l.tables.ledgerMeta "head_tx_id" b.headTxId }) hitems hnodup fun item hitem => ⟨(hunused item hitem).unwritten, (hunused item hitem).undescribed⟩
  have hbody : l.commitBody b n l.tables = .ok (b.upsertMetadata t, b.hook l n) := by
    have hmerged : b.mergedRevocations = [] := by
      unfold Batch.mergedRevocations
      rw [hrevocations]
      rfl
    unfold Ledger.commitBody Batch.body
    rw [hnew, hswap, hmerged, happends]
    simp only [ok_bind, ht]
    rfl
  -- the hook of an assertion does not raise
  have hassertion : ∀ p ∈ b.mergedAssertions.zipIdx,
      ∃ f, Hook.Total (l.assertionHook p.1.claim p.1.metaRows p.1.annotationRows n p.2) f := by
    intro p hp
    have hitem := hitems p.1 (List.fst_mem_of_mem_zipIdx hp)
    obtain ⟨rows, hrows⟩ := hitem.args
    exact l.total_assertionHook hitem.user hrows (.inr ⟨[], hitem.annotations⟩) n p.2
  obtain ⟨f, hf⟩ : ∃ f, Hook.Total (b.hook l n) f := by
    obtain ⟨f, hf⟩ := Hook.exists_total_each hassertion
    unfold Batch.hook Batch.mergedRevocations
    rw [hrevocations, happends]
    exact ⟨_, hf.andThen ((Hook.total_step id).andThen (Hook.total_step id))⟩
  refine ⟨{ l with tables := b.upsertMetadata t, indexes := f l.indexes }, ?_⟩
  unfold Ledger.commitBatch Ledger.session
  simp only [hcheck]
  rw [Session.run_of_ok (s := (l.tables, l.indexes)) hbody, hf]

/-! ## The changes -/

/-- What preparing an assertion makes of it, whatever id it gets. -/
def Prepares (host : Host) (schemaDigest : String) (item : AssertionInput) : Prop :=
  ∃ p, prepareAssertion host schemaDigest item "" = .ok p

theorem Prepares.any {host : Host} {schemaDigest : String} {item : AssertionInput}
    (h : Prepares host schemaDigest item) (asrtId : String) :
    ∃ p, prepareAssertion host schemaDigest item asrtId = .ok p := by
  obtain ⟨p, h⟩ := h
  unfold prepareAssertion at h ⊢
  obtain ⟨h₁, h⟩ := bind_unit_ok_iff.mp h
  obtain ⟨h₂, h⟩ := bind_unit_ok_iff.mp h
  obtain ⟨h₃, h⟩ := bind_unit_ok_iff.mp h
  obtain ⟨digest, h₄, h⟩ := bind_ok_iff.mp h
  obtain ⟨rows, h₅, _⟩ := bind_ok_iff.mp h
  simp only [h₁, h₂, h₃, h₄, h₅, ok_bind]
  exact ⟨_, rfl⟩

/-- What a head that was read says. -/
structure HeadAt (l : Ledger) (dbId schemaDigest : String) (parent : DatabaseValue) : Prop where
  headTxId : l.getLedgerMeta "head_tx_id" = some parent.txId
  tx : requireToken parent.txId "tx:" "head_tx_id" = .ok parent.txId
  schema : requireToken schemaDigest "sha256:" "expected_schema_digest" = .ok schemaDigest
  own : requireDbId dbId = .ok dbId
  state : ∃ state, decodeState parent.stateDigest = .ok state

theorem headAt_of_readLedgerHead {l : Ledger} {schemaDigest dbId : String} {parent : DatabaseValue}
    (h : readLedgerHead l schemaDigest dbId = .ok parent) : HeadAt l dbId schemaDigest parent := by
  unfold readLedgerHead at h
  obtain ⟨hmissing, h⟩ := bind_unit_ok_iff.mp h
  obtain ⟨own, hown, h⟩ := bind_ok_iff.mp h
  obtain ⟨_, h⟩ := bind_unit_ok_iff.mp h
  obtain ⟨token, htoken, h⟩ := bind_ok_iff.mp h
  obtain ⟨expected, hexpected, h⟩ := bind_ok_iff.mp h
  obtain ⟨_, h⟩ := bind_unit_ok_iff.mp h
  obtain ⟨_, h⟩ := bind_unit_ok_iff.mp h
  have hdb : own = dbId := by
    unfold requireDbId at hown
    obtain ⟨_, hown⟩ := bind_unit_ok_iff.mp hown
    exact (Except.ok.inj hown).symm
  split at h
  next => cases h
  next => cases h
  next state hstate =>
    split at h
    next => cases h
    next txSeq _ =>
      obtain ⟨txId, htx, h⟩ := bind_ok_iff.mp h
      cases h
      have hsome : l.getLedgerMeta "head_tx_id" = some ((l.getLedgerMeta "head_tx_id").getD "") := by
        have hall := List.isEmpty_iff.mp (require_ok_iff.mp hmissing)
        rw [List.filter_eq_nil_iff] at hall
        have hkey := hall "head_tx_id" (by simp [headKeys])
        cases hget : l.getLedgerMeta "head_tx_id" with
        | none => simp [hget] at hkey
        | some txId => rfl
      have htxId := requireToken_ok htx
      refine ⟨hsome.trans (congrArg some htxId.symm), ?_, ?_, hdb ▸ hown, ⟨state, hstate⟩⟩
      · rw [htxId] at htx ⊢
        exact htx
      · rwa [requireToken_ok hexpected] at hexpected

section

variable {host : Host}

/-- An assertion that was prepared under a valid id has an element and an operation. -/
theorem stateElement_ok (hsha : ∀ raw, (host.sha256 raw).length = 32) {asrtId : String}
    (hid : requireAsrtId asrtId "asrt_id" = .ok asrtId) (raw : List UInt8) :
    ∃ element, stateElement asrtId (sha256Token host.sha256 raw) = .ok element := by
  have htoken : requireToken (sha256Token host.sha256 raw) "sha256:" "assertion_digest" =
      .ok (sha256Token host.sha256 raw) := requireToken_digest host raw (hsha raw)
  obtain ⟨id, hidField⟩ := exists_strField (length_of_requireAsrtId hid).2
  obtain ⟨digest, hdigest⟩ := exists_strField (length_of_requireToken (by decide) htoken)
  unfold stateElement
  rw [hid, ok_bind, htoken, ok_bind, hidField, ok_bind, hdigest, ok_bind]
  exact ⟨_, rfl⟩

theorem addAll_ok (hsha : ∀ raw, (host.sha256 raw).length = 32) {ps : List PreparedAssertion}
    (hps : ∀ p ∈ ps, requireAsrtId p.record.asrtId "asrt_id" = .ok p.record.asrtId ∧
      ∃ raw, p.record.assertionDigest = sha256Token host.sha256 raw) (state : LtState) :
    ∃ state', addAll host state ps = .ok state' := by
  induction ps generalizing state with
  | nil => exact ⟨state, rfl⟩
  | cons p ps ih =>
    obtain ⟨hid, raw, hdigest⟩ := hps p List.mem_cons_self
    obtain ⟨element, helement⟩ := stateElement_ok hsha hid raw
    unfold addAll
    rw [hdigest, helement, ok_bind]
    exact ih (fun q hq => hps q (List.mem_cons_of_mem p hq)) _

/-- The transaction of assertions that were prepared has an id, which is a token. -/
theorem txIdForV2_ok (hsha : ∀ raw, (host.sha256 raw).length = 32) {parentTxId : Option String}
    (hparent : ∀ parent ∈ parentTxId, requireToken parent "tx:" "parent_tx_id" = .ok parent)
    {schemaDigest : String}
    (hschema : requireToken schemaDigest "sha256:" "schema_digest" = .ok schemaDigest)
    {txSeq : Nat} (hseq : txSeq < 2 ^ 64) {ps : List PreparedAssertion} (hcount : ps.length < 2 ^ 32)
    (hps : ∀ p ∈ ps, requireAsrtId p.record.asrtId "asrt_id" = .ok p.record.asrtId ∧
      ∃ raw, p.record.assertionDigest = sha256Token host.sha256 raw) :
    ∃ raw, txIdForV2 host parentTxId schemaDigest txSeq (operationsOf ps []) =
      .ok ("tx:" ++ hexdigest (host.sha256 raw)) := by
  have hops : operationsOf ps [] =
      ps.map fun p => TxOperation.assertion p.record.asrtId p.record.assertionDigest :=
    List.append_nil _
  have htoken : ∀ raw field, requireToken (sha256Token host.sha256 raw) "sha256:" field =
      .ok (sha256Token host.sha256 raw) := fun raw field => requireToken_digest host raw (hsha raw)
  have hnormalize : each TxOperation.normalize (operationsOf ps []) = .ok () := by
    rw [hops]
    apply each_ok_iff.mpr
    intro op hop
    obtain ⟨p, hp, rfl⟩ := List.mem_map.mp hop
    obtain ⟨hid, raw, hdigest⟩ := hps p hp
    unfold TxOperation.normalize
    simp only [hid, hdigest, htoken, ok_bind]
  have hbytes : ∀ op ∈ operationsOf ps [], ∃ raw, TxOperation.bytes host op = .ok raw := by
    rw [hops]
    intro op hop
    obtain ⟨p, hp, rfl⟩ := List.mem_map.mp hop
    obtain ⟨hid, raw, hdigest⟩ := hps p hp
    obtain ⟨id, hidField⟩ := exists_strField (length_of_requireAsrtId hid).2
    obtain ⟨digest, hdigestField⟩ :=
      exists_strField (length_of_requireToken (by decide) (htoken raw "assertion_digest"))
    unfold TxOperation.bytes
    simp only [hidField, hdigest, hdigestField, ok_bind]
    exact ⟨_, rfl⟩
  obtain ⟨body, hbody⟩ := exists_mapOk hbytes
  obtain ⟨schema, hschemaField⟩ := exists_strField (length_of_requireToken (by decide) hschema)
  obtain ⟨scheme, hscheme⟩ : ∃ raw, strField LtState.scheme = .ok raw :=
    exists_strField (by decide)
  obtain ⟨parent, hparentBytes⟩ : ∃ raw, parentBytes parentTxId = .ok raw := by
    cases parentTxId with
    | none => exact ⟨_, rfl⟩
    | some parent =>
      obtain ⟨raw, hraw⟩ := exists_strField (length_of_requireToken (by decide) (hparent parent rfl))
      exact ⟨1 :: raw, by simp [parentBytes, hraw, Except.map]⟩
  have hlength : (operationsOf ps []).length = ps.length := by
    rw [hops, List.length_map]
  have hseqBytes : u64be txSeq = .ok (bigEndian 8 txSeq) := if_pos hseq
  have hcountBytes : u32be (operationsOf ps []).length = .ok (bigEndian 4 ps.length) := by
    rw [hlength]
    exact if_pos hcount
  unfold txIdForV2 canonicalBytesDbtxV2
  cases parentTxId with
  | none =>
    simp only [hschema, hnormalize, hparentBytes, hschemaField, hscheme, hseqBytes, hcountBytes,
      hbody, ok_bind]
    exact ⟨_, rfl⟩
  | some parentTx =>
    simp only [hparent parentTx rfl, hschema, hnormalize, hparentBytes, hschemaField, hscheme,
      hseqBytes, hcountBytes, hbody, ok_bind]
    exact ⟨_, rfl⟩

/-- The item of an assertion, as the ledger merges it. -/
def mergedWrite (txId : String) (p : PreparedAssertion) : LedgerAssertionWrite :=
  { assertionWrite txId p with
    annotationRows := mergeAnnotationRows (initialMetaAnnotationRows (assertionWrite txId p).metaRows)
      (assertionWrite txId p).annotationRows }

theorem Accepted.insertable {schemaDigest asrtId txId : String} {item : AssertionInput}
    {p : PreparedAssertion} (h : Accepted host schemaDigest item asrtId p) (hid : asrtId ≠ "") :
    Insertable (mergedWrite txId p) := by
  have hclaim : (mergedWrite txId p).claim = item.claim asrtId := h.claim
  obtain ⟨rows, hrows, _⟩ := h.args
  refine ⟨?_, ?_, ⟨rows, ?_⟩, h.nodup_keys, h.encodable, ?_⟩
  · rw [hclaim]
    exact h.storable hid
  · rw [hclaim]
    exact h.user
  · rw [hclaim]
    exact hrows
  · exact compatibility_nil h.encodable fun a ha => h.annotation ha

theorem checkAssertions_ok {schemaDigest txId : String} :
    ∀ {ps : List PreparedAssertion} {seen : List String},
      (∀ p ∈ ps, ∃ item, Accepted host schemaDigest item p.record.asrtId p ∧
        p.record.asrtId ≠ "") →
      (ps.map (·.record.asrtId)).Nodup → (∀ p ∈ ps, p.record.asrtId ∉ seen) →
      Batch.checkAssertions seen (ps.map (mergedWrite txId)) = .ok () := by
  intro ps
  induction ps with
  | nil => exact fun _ _ _ => rfl
  | cons p ps ih =>
    intro seen hps hnodup hseen
    obtain ⟨hfirst, hrest⟩ := List.nodup_cons.mp hnodup
    obtain ⟨item, haccept, hid⟩ := hps p List.mem_cons_self
    rw [List.map_cons, Batch.checkAssertions]
    have hone : Batch.checkAssertion seen (mergedWrite txId p) = .ok () :=
      haccept.check_ok hid (hseen p List.mem_cons_self)
    have hclaim : (mergedWrite txId p).claim.asrtId = p.record.asrtId := by
      show p.claim.asrtId = _
      rw [haccept.claim]
      rfl
    rw [hone, ok_bind, hclaim]
    apply ih (fun q hq => hps q (List.mem_cons_of_mem p hq)) hrest
    intro q hq hmem
    rcases List.mem_cons.mp hmem with heq | hmem
    · exact hfirst (List.mem_map.mpr ⟨q, hq, heq⟩)
    · exact hseen q (List.mem_cons_of_mem p hq) hmem

/-- The records of assertions that were prepared under the ids of their positions. -/
theorem records_of_prepared {schemaDigest : String} {assertions : List AssertionInput}
    {ids : Nat → String} {prepared : List PreparedAssertion}
    (h : mapOk (fun p => prepareAssertion host schemaDigest p.1 (ids p.2)) assertions.zipIdx =
      .ok prepared) :
    prepared.map (·.record.asrtId) = (List.range assertions.length).map ids ∧
      ∀ p ∈ prepared, ∃ item i, i < assertions.length ∧
        Accepted host schemaDigest item (ids i) p := by
  constructor
  · have hids : prepared.map (·.record.asrtId) = assertions.zipIdx.map fun p => ids p.2 :=
      map_of_mapOk h fun p q hp => (accepted_of_prepareAssertion hp).id
    rw [hids, List.range_eq_range', ← List.zipIdx_map_snd 0 assertions, List.map_map]
    rfl
  · intro p hp
    obtain ⟨q, hmem, hq⟩ := mem_of_mapOk h hp
    have hlt := List.snd_lt_of_mem_zipIdx hmem
    exact ⟨q.1, q.2, by omega, accepted_of_prepareAssertion hq⟩

/-- **Assertions that can be prepared go through**, under new ids and on a head that can be read. -/
theorem commitChanges_ok (hsha : ∀ raw, (host.sha256 raw).length = 32) {d : Database}
    {parent : DatabaseValue} (hhead : d.head = .ok parent) (hseq : parent.txSeq + 1 < 2 ^ 64)
    {assertions : List AssertionInput} (hne : assertions ≠ []) (hcount : assertions.length < 2 ^ 32)
    (hprepares : ∀ item ∈ assertions, Prepares host d.schemaDigest item) {ids : Nat → String}
    (hdistinct : ((List.range assertions.length).map ids).Nodup)
    (hids : ∀ i < assertions.length, requireAsrtId (ids i) "asrt_id" = .ok (ids i))
    (hunused : ∀ i < assertions.length, Unused d.ledger (ids i)) :
    ∃ d' result, d.commitChanges host assertions [] ids = (d', .ok result) := by
  obtain ⟨hcurrent, htx, hexpected, hown, state₀, hstate₀⟩ := headAt_of_readLedgerHead hhead
  obtain ⟨prepared, hprepared⟩ : ∃ prepared, mapOk (fun p => prepareAssertion host d.schemaDigest p.1
      (ids p.2)) assertions.zipIdx = .ok prepared :=
    exists_mapOk fun p hp => (hprepares p.1 (List.fst_mem_of_mem_zipIdx hp)).any (ids p.2)
  obtain ⟨hrecords, haccepted⟩ := records_of_prepared hprepared
  have hlength : prepared.length = assertions.length := by
    have h := congrArg List.length hrecords
    simpa using h
  have hnodup : (prepared.map (·.record.asrtId)).Nodup := by
    rw [hrecords]
    exact hdistinct
  have hvalid : ∀ p ∈ prepared, requireAsrtId p.record.asrtId "asrt_id" = .ok p.record.asrtId ∧
      ∃ raw, p.record.assertionDigest = sha256Token host.sha256 raw := by
    intro p hp
    obtain ⟨item, i, hi, haccept⟩ := haccepted p hp
    exact ⟨haccept.id ▸ hids i hi, haccept.digest⟩
  have hexisting : each (fun a => require (d.ledger.getClaim a).isNone
      (StoreErr.database s!"assertion already exists: {a}")) (prepared.map (·.record.asrtId)) =
        .ok () := by
    apply each_ok_iff.mpr
    intro a ha
    rw [hrecords] at ha
    obtain ⟨i, hi, rfl⟩ := List.mem_map.mp ha
    have hunknown := (hunused i (List.mem_range.mp hi)).unknown
    unfold Ledger.isKnownAsrtId at hunknown
    have hnone := (Bool.or_eq_false_iff.mp hunknown).1
    exact require_of_true (by simpa [Dict.has, Ledger.getClaim] using hnone)
  -- the parts of a batch: the state digest, the transaction id and the metadata
  obtain ⟨state, hstate⟩ := addAll_ok hsha hvalid state₀
  have hparent : ∀ tx ∈ some parent.txId, requireToken tx "tx:" "parent_tx_id" = .ok tx := by
    intro tx heq
    cases heq
    exact requireToken_field htx _
  obtain ⟨raw, htxId⟩ := txIdForV2_ok hsha hparent (requireToken_field hexpected "schema_digest") hseq
    (hlength ▸ hcount) hvalid
  have hmetadata : headMetadata d.dbId d.schemaDigest state.encode (parent.txSeq + 1) =
      .ok [("db_id", d.dbId), ("schema_digest", d.schemaDigest), ("head_state_digest", state.encode),
        ("digest_scheme", LtState.scheme), ("head_tx_seq", toString (parent.txSeq + 1))] := by
    unfold headMetadata
    rw [decodeState_encode, ok_bind, hown, ok_bind, requireToken_field hexpected, ok_bind]
  let batch : Batch :=
    { assertions := prepared.map (assertionWrite ("tx:" ++ hexdigest (host.sha256 raw)))
      expectedHeadTxId := some parent.txId
      headTxId := "tx:" ++ hexdigest (host.sha256 raw)
      metadata := [("db_id", d.dbId), ("schema_digest", d.schemaDigest),
        ("head_state_digest", state.encode), ("digest_scheme", LtState.scheme),
        ("head_tx_seq", toString (parent.txSeq + 1))] }
  obtain ⟨result, hchange⟩ : ∃ result, d.prepareChanges host assertions [] ids =
      .ok ⟨batch, result⟩ := by
    unfold Database.prepareChanges
    rw [require_of_true (by simp [hne]), ok_bind, hhead, ok_bind, hprepared, ok_bind]
    simp only
    rw [require_of_true (decide_eq_true hnodup), ok_bind, hexisting, ok_bind]
    simp only [List.zipIdx_nil, List.map_nil, prepareRevocations, removeAll, ok_bind, hstate₀, hstate,
      htxId, hmetadata]
    exact ⟨_, rfl⟩
  -- what the ledger checks of the batch, which the database has not
  have hnonempty : ∀ i < assertions.length, ids i ≠ "" := by
    intro i hi hempty
    have hid := hids i hi
    rw [hempty] at hid
    revert hid
    decide
  have hmerged : batch.mergedAssertions =
      prepared.map (mergedWrite ("tx:" ++ hexdigest (host.sha256 raw))) := by
    unfold Batch.mergedAssertions
    rw [List.map_map]
    rfl
  have hinsertable : ∀ item ∈ batch.mergedAssertions, Insertable item ∧
      ∃ i, i < assertions.length ∧ item.claim.asrtId = ids i := by
    intro item hitem
    rw [hmerged] at hitem
    obtain ⟨p, hp, rfl⟩ := List.mem_map.mp hitem
    obtain ⟨item, i, hi, haccept⟩ := haccepted p hp
    refine ⟨haccept.insertable (hnonempty i hi), i, hi, ?_⟩
    show p.claim.asrtId = _
    rw [haccept.claim]
    rfl
  have hclaimIds : batch.mergedAssertions.map (·.claim.asrtId) =
      (List.range assertions.length).map ids := by
    rw [hmerged, ← hrecords, List.map_map]
    apply List.map_congr_left
    intro p hp
    obtain ⟨item, i, _, haccept⟩ := haccepted p hp
    show p.claim.asrtId = _
    rw [haccept.claim, haccept.id]
    rfl
  have hcheck : batch.check d.ledger = .ok (parent.txSeq + 1) := by
    have hcheckHead : batch.checkHead = .ok () := by
      have hheadTx : batch.headTxId ≠ "" := by
        intro hempty
        have hlist := congrArg String.toList hempty
        simp [batch] at hlist
      have hexpectedTx : batch.expectedHeadTxId ≠ some "" := by
        intro hempty
        rw [Option.some.inj hempty] at htx
        revert htx
        decide
      unfold Batch.checkHead
      rw [require_of_true (decide_eq_true hheadTx), ok_bind,
        require_of_true (decide_eq_true hexpectedTx), ok_bind]
      rfl
    have htxSeq : batch.txSeq = .ok (parent.txSeq + 1) := by
      have hdecimal : (Dict.get? batch.metadata "head_tx_seq").bind Ledger.decimal? =
          some (parent.txSeq + 1) := decimal?_toString (parent.txSeq + 1)
      unfold Batch.txSeq
      rw [hdecimal]
    have hassertions : Batch.checkAssertions [] batch.mergedAssertions = .ok () := by
      have hall : ∀ p ∈ prepared, ∃ item,
          Accepted host d.schemaDigest item p.record.asrtId p ∧ p.record.asrtId ≠ "" := by
        intro p hp
        obtain ⟨item, i, hi, haccept⟩ := haccepted p hp
        rw [haccept.id]
        exact ⟨item, haccept, hnonempty i hi⟩
      rw [hmerged]
      exact checkAssertions_ok hall hnodup fun p _ => List.not_mem_nil
    unfold Batch.check
    rw [hcheckHead, ok_bind, htxSeq, hassertions]
    rfl
  -- an unused id is not in the tables, so no insertion meets a key that is there
  obtain ⟨l', hl'⟩ := commitBatch_ok hcheck rfl rfl hcurrent (fun item hitem => (hinsertable item hitem).1)
    (hclaimIds ▸ hdistinct) (fun item hitem => by
      obtain ⟨_, i, hi, hid⟩ := hinsertable item hitem
      exact hid ▸ hunused i hi)
  refine ⟨{ d with ledger := l' }, result, ?_⟩
  unfold Database.commitChanges
  simp only [hchange, hl']

/-! ## The head after a commit -/

/-- A head as a commit writes it can be read. -/
theorem readLedgerHead_ok {l : Ledger} {dbId schemaDigest txId : String} {state : LtState}
    {txSeq : Nat} (hown : requireDbId dbId = .ok dbId)
    (hschema : requireToken schemaDigest "sha256:" "schema_digest" = .ok schemaDigest)
    (htx : requireToken txId "tx:" "head_tx_id" = .ok txId)
    (hget : ∀ key, l.getLedgerMeta key = (Dict.get? [("db_id", dbId), ("schema_digest", schemaDigest),
      ("head_state_digest", state.encode), ("digest_scheme", LtState.scheme),
      ("head_tx_seq", toString txSeq), ("head_tx_id", txId)] key).or (l.getLedgerMeta key)) :
    readLedgerHead l schemaDigest dbId = .ok ⟨dbId, txId, schemaDigest, state.encode, txSeq⟩ := by
  have hseq : headTxSeq? (toString txSeq) = some txSeq := by
    unfold headTxSeq?
    rw [decimal?_toString]
    simp
  have hdb : l.getLedgerMeta "db_id" = some dbId := hget "db_id"
  have hsd : l.getLedgerMeta "schema_digest" = some schemaDigest := hget "schema_digest"
  have hst : l.getLedgerMeta "head_state_digest" = some state.encode := hget "head_state_digest"
  have hsc : l.getLedgerMeta "digest_scheme" = some LtState.scheme := hget "digest_scheme"
  have hsq : l.getLedgerMeta "head_tx_seq" = some (toString txSeq) := hget "head_tx_seq"
  have hid : l.getLedgerMeta "head_tx_id" = some txId := hget "head_tx_id"
  unfold readLedgerHead headKeys
  simp only [List.filter_cons, List.filter_nil, hdb, hsd, hst, hsc, hsq, hid, Option.isNone_some,
    Option.getD_some, Bool.false_eq_true, if_false, List.isEmpty_nil, decide_true, require, if_true,
    ok_bind, hown, hschema, requireToken_field hschema, decodeState_encode, hseq, htx]

/-! ## A new database -/

/-- The batch `_create_memory` commits. -/
def createBatch (host : Host) (dbId schemaDigest : String) : Batch where
  expectedHeadTxId := none
  headTxId := (txIdForV2 host none schemaDigest 0 []).toOption.getD ""
  metadata := [("db_id", dbId), ("schema_digest", schemaDigest),
    ("head_state_digest", LtState.empty.encode), ("digest_scheme", LtState.scheme),
    ("head_tx_seq", toString 0)]

/-- The ledger of a new database: it has a head, and nothing else. -/
def createdLedger (host : Host) (dbId schemaDigest : String) : Ledger :=
  { Ledger.empty with
    tables := (createBatch host dbId schemaDigest).upsertMetadata
      { Tables.empty with
        ledgerMeta := Dict.set Tables.empty.ledgerMeta "head_tx_id"
          (createBatch host dbId schemaDigest).headTxId } }

theorem createBatch_headTxId (hsha : ∀ raw, (host.sha256 raw).length = 32) {schemaDigest : String}
    (hschema : requireToken schemaDigest "sha256:" "schema_digest" = .ok schemaDigest)
    (dbId : String) :
    ∃ raw, txIdForV2 host none schemaDigest 0 [] = .ok ("tx:" ++ hexdigest (host.sha256 raw)) ∧
      (createBatch host dbId schemaDigest).headTxId = "tx:" ++ hexdigest (host.sha256 raw) ∧
      (createBatch host dbId schemaDigest).headTxId ≠ "" := by
  have hid : ∃ raw, txIdForV2 host none schemaDigest 0 [] =
      .ok ("tx:" ++ hexdigest (host.sha256 raw)) :=
    txIdForV2_ok hsha (fun parent hnone => by cases hnone) hschema (by decide : 0 < 2 ^ 64)
      (by decide : ([] : List PreparedAssertion).length < 2 ^ 32) (fun p hp => by cases hp)
  obtain ⟨raw, htxId⟩ := hid
  have htx : (createBatch host dbId schemaDigest).headTxId =
      "tx:" ++ hexdigest (host.sha256 raw) := by
    unfold createBatch
    rw [htxId]
    rfl
  refine ⟨raw, htxId, htx, ?_⟩
  rw [htx]
  intro hempty
  have hlist := congrArg String.toList hempty
  simp at hlist

theorem createBatch_check {dbId schemaDigest : String}
    (hheadTx : (createBatch host dbId schemaDigest).headTxId ≠ "") :
    (createBatch host dbId schemaDigest).check Ledger.empty = .ok 0 := by
  have hcheckHead : (createBatch host dbId schemaDigest).checkHead = .ok () := by
    unfold Batch.checkHead
    rw [require_of_true (decide_eq_true hheadTx), ok_bind]
    rfl
  have htxSeq : (createBatch host dbId schemaDigest).txSeq = .ok 0 := by
    have hdecimal : (Dict.get? (createBatch host dbId schemaDigest).metadata "head_tx_seq").bind
        Ledger.decimal? = some 0 := decimal?_toString 0
    unfold Batch.txSeq
    rw [hdecimal]
  unfold Batch.check
  rw [hcheckHead, ok_bind, htxSeq]
  rfl

theorem commitBody_createBatch (dbId schemaDigest : String) :
    Ledger.empty.commitBody (createBatch host dbId schemaDigest) 0 Ledger.empty.tables =
      .ok ((createdLedger host dbId schemaDigest).tables,
        (createBatch host dbId schemaDigest).hook Ledger.empty 0) := rfl

theorem commitBatch_createBatch {dbId schemaDigest : String}
    (hcheck : (createBatch host dbId schemaDigest).check Ledger.empty = .ok 0) :
    Ledger.empty.commitBatch (createBatch host dbId schemaDigest) =
      (createdLedger host dbId schemaDigest, .ok ()) := by
  unfold Ledger.commitBatch Ledger.session
  simp only [hcheck]
  rw [Session.run_of_ok (s := (Ledger.empty.tables, Ledger.empty.indexes))
    (commitBody_createBatch dbId schemaDigest)]
  rfl

theorem headMetadata_createBatch {dbId schemaDigest : String} (hown : requireDbId dbId = .ok dbId)
    (hschema : requireToken schemaDigest "sha256:" "schema_digest" = .ok schemaDigest) :
    headMetadata dbId schemaDigest LtState.empty.encode 0 =
      .ok (createBatch host dbId schemaDigest).metadata := by
  unfold headMetadata
  rw [decodeState_encode, ok_bind, hown, ok_bind, hschema, ok_bind]
  rfl

/-- The head's own keys shadow what the ledger had. -/
theorem headKey_or (dbId schemaDigest state seq txId key : String) (old : Option String) :
    (Dict.get? [("db_id", dbId), ("schema_digest", schemaDigest), ("head_state_digest", state),
      ("digest_scheme", LtState.scheme), ("head_tx_seq", seq)] key).or
        (if key = "head_tx_id" then some txId else old) =
    (Dict.get? [("db_id", dbId), ("schema_digest", schemaDigest), ("head_state_digest", state),
      ("digest_scheme", LtState.scheme), ("head_tx_seq", seq), ("head_tx_id", txId)] key).or
      ((Dict.get? [("db_id", dbId), ("schema_digest", schemaDigest), ("head_state_digest", state),
        ("digest_scheme", LtState.scheme), ("head_tx_seq", seq)] key).or
          (if key = "head_tx_id" then some txId else old)) := by
  simp only [Dict.get?_cons, Dict.get?_nil]
  split_ifs <;> rfl

/-- The head of a new database can be read. -/
theorem readLedgerHead_createdLedger (hsha : ∀ raw, (host.sha256 raw).length = 32)
    {dbId schemaDigest : String} (hown : requireDbId dbId = .ok dbId)
    (hschema : requireToken schemaDigest "sha256:" "schema_digest" = .ok schemaDigest) :
    ∃ parent, readLedgerHead (createdLedger host dbId schemaDigest) schemaDigest dbId = .ok parent ∧
      parent.txSeq = 0 := by
  obtain ⟨raw, _, htx, hheadTx⟩ := createBatch_headTxId hsha hschema dbId
  have hkeys : ["db_id", "schema_digest", "head_state_digest", "digest_scheme",
      "head_tx_seq"].Nodup := by decide
  have hget : ∀ key, (createdLedger host dbId schemaDigest).getLedgerMeta key =
      (Dict.get? (createBatch host dbId schemaDigest).metadata key).or
        (if key = "head_tx_id" then some (createBatch host dbId schemaDigest).headTxId
        else Dict.get? Ledger.empty.tables.ledgerMeta key) :=
    (Batch.ledgerMeta_of_commitBody (createBatch_check hheadTx)
      (commitBody_createBatch dbId schemaDigest) hkeys).2
  have hhead : readLedgerHead (createdLedger host dbId schemaDigest) schemaDigest dbId =
      .ok ⟨dbId, "tx:" ++ hexdigest (host.sha256 raw), schemaDigest, LtState.empty.encode, 0⟩ := by
    refine readLedgerHead_ok hown hschema (requireToken_digest host raw (hsha raw)) ?_
    intro key
    rw [hget key, htx]
    exact headKey_or ..
  exact ⟨_, hhead, rfl⟩

/-- **A database can be created.** -/
theorem create_ok (hsha : ∀ raw, (host.sha256 raw).length = 32) {dbId schemaDigest : String}
    (hown : requireDbId dbId = .ok dbId)
    (hschema : requireToken schemaDigest "sha256:" "schema_digest" = .ok schemaDigest) :
    create host dbId schemaDigest =
        .ok ⟨createdLedger host dbId schemaDigest, dbId, schemaDigest⟩ ∧
      (createdLedger host dbId schemaDigest).Reachable := by
  obtain ⟨raw, htxId, htx, hheadTx⟩ := createBatch_headTxId hsha hschema dbId
  have hcommit := commitBatch_createBatch (createBatch_check hheadTx)
  constructor
  · unfold create
    rw [htxId, ok_bind, @headMetadata_createBatch host _ _ hown hschema, ok_bind, ← htx]
    simp only [createBatch] at hcommit ⊢
    rw [hcommit]
  · exact ⟨[], [.commit (createBatch host dbId schemaDigest)], (congrArg Prod.fst hcommit).symm⟩

end

end FactGraph.Db
