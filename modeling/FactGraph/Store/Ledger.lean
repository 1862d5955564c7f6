import FactGraph.Store.Indexes

/-!
# The ledger

`core/store/ledger.py`: a `Ledger` is its tables, its in-memory indexes and the metadata keys it does
not keep in memory (`_lazy_meta_keys`). Reads go to the indexes, except for lazy keys and for the
insertion sequence of a claim, which are read from the tables. Every write checks its arguments,
opens one session on the tables and updates the indexes after the commit.

Left out: connections, threads and locks (a call is one step), the writers a managed `Database`
installs in place of `append_meta` and `append_annotations`, and the private proxy that rewrites
all metadata.
-/

namespace FactGraph.Store

open Protocol Check Session

/-- A ledger. -/
structure Ledger where
  tables : Tables
  indexes : Indexes
  lazyMetaKeys : List String

namespace Ledger

/-- `Ledger(path=":memory:")` after `configure_meta_load_policy(lazy_keys)`. -/
def opened (lazyKeys : List String) : Ledger where
  tables := .empty
  indexes := {}
  lazyMetaKeys := lazyKeys

/-- `Ledger(path=":memory:")`. -/
def empty : Ledger := opened []

/-! ## Reads -/

def isLazy (l : Ledger) (key : String) : Bool := key ∈ l.lazyMetaKeys

/-- `get_claim`. -/
def getClaim (l : Ledger) (asrtId : String) : Option Claim :=
  Dict.get? l.indexes.claimByAsrtId asrtId

/-- `_get_claim_including_system`. -/
def getClaimIncludingSystem (l : Ledger) (asrtId : String) : Option Claim :=
  (Dict.get? l.indexes.claimByAsrtId asrtId).or (Dict.get? l.indexes.systemClaimByAsrtId asrtId)

/-- `claim_sequence`. -/
def claimSequence (l : Ledger) (asrtId : String) : Except StoreErr (Option Nat) :=
  if asrtId = "" then .error (.valueError "asrt_id must be a non-empty string")
  else .ok (l.tables.claims.sequence? asrtId)

/-- `find_claims`. -/
def findClaims (l : Ledger) (predId eRef : Option String) : List Claim :=
  match predId, eRef with
  | some p, some e => Buckets.get l.indexes.claimsByPredERef (p, e)
  | some p, none => Buckets.get l.indexes.claimsByPredId p
  | none, some e => Buckets.get l.indexes.claimsByERef e
  | none, none => l.indexes.claims

/-- `find_claim_args(asrt_id=…)`. -/
def findClaimArgs (l : Ledger) (asrtId : String) : List ClaimArg :=
  Buckets.get l.indexes.claimArgsByAsrtId asrtId

/-- `has_active_revocation`. -/
def hasActiveRevocation (l : Ledger) (asrtId : String) : Bool := asrtId ∈ l.indexes.revokedAsrtIds

/-- `find_revoker`. -/
def findRevoker (l : Ledger) (asrtId : String) : Option String :=
  Dict.get? l.indexes.firstRevokerByRevokedAsrtId asrtId

/-- `_is_known_asrt_id`. -/
def isKnownAsrtId (l : Ledger) (asrtId : String) : Bool :=
  Dict.has l.indexes.claimByAsrtId asrtId || Dict.has l.indexes.systemClaimByAsrtId asrtId

/-- The id `_find_ingest_key` returns for one candidate, if it does. -/
def acceptIngest (l : Ledger) (asrtId : String) : Option String :=
  if Dict.has l.indexes.claimByAsrtId asrtId then
    if l.hasActiveRevocation asrtId then none else some asrtId
  else if asrtId ∈ l.indexes.revokerAsrtIds then some asrtId else none

/-- `_find_ingest_key`. -/
def findIngestKey (l : Ledger) (ingestKey : String) : Option String :=
  (Buckets.get l.indexes.metaIngestKeyAsrtIds ingestKey).findSome? l.acceptIngest

/-- `get_ledger_meta`. -/
def getLedgerMeta (l : Ledger) (key : String) : Option String := Dict.get? l.tables.ledgerMeta key

/-- `_claim_meta_event_sort_key`, compared as a tuple. -/
def eventLe (e f : MetaEvent) : Bool :=
  decide (e.eventSeq < f.eventSeq) || (decide (e.eventSeq = f.eventSeq) &&
    (decide (e.asrtId < f.asrtId) || (decide (e.asrtId = f.asrtId) &&
      decide (e.key.text ≤ f.key.text))))

/-- `sorted(events, key=_claim_meta_event_sort_key)`. -/
def sortEvents (events : List MetaEvent) : List MetaEvent :=
  events.insertionSort fun e f => eventLe e f

/-- The event of a row of `claim_meta`. -/
def decodeEvent (r : ClaimMetaRow) : Except StoreErr MetaEvent :=
  match r.cell with
  | none => .ok ⟨r.asrtId, r.key, none, r.txSeq, r.opOrdinal⟩
  | some s => (decodeMetaValue s).map fun value =>
      ⟨r.asrtId, r.key, some (s.kind, value), r.txSeq, r.opOrdinal⟩

/-- `… WHERE key IN (…) AND asrt_id = ? ORDER BY tx_seq, op_ordinal, rowid`. -/
def lazyRows (l : Ledger) (asrtId : Option String) (key : Option MetaKey) : List ClaimMetaRow :=
  (l.tables.claimMeta.rows.filter fun r =>
    l.isLazy r.key.text && key.all (r.key = ·) && asrtId.all (r.asrtId = ·)).insertionSort
      fun r s => toLex (r.txSeq, r.opOrdinal) ≤ toLex (s.txSeq, s.opOrdinal)

/-- `_lazy_meta_events`. -/
def lazyMetaEvents (l : Ledger) (asrtId : Option String) (key : Option MetaKey) :
    Except StoreErr (List MetaEvent) :=
  mapOk decodeEvent (l.lazyRows asrtId key)

/-- The events in memory that `meta_history_events` starts from. -/
def eagerMetaEvents (l : Ledger) (asrtId : Option String) (key : Option MetaKey) : List MetaEvent :=
  match asrtId, key with
  | some a, some k => Buckets.get l.indexes.claimMetaEventsByAsrtIdKey (a, k)
  | some a, none => Buckets.get l.indexes.claimMetaEventsByAsrtId a
  | none, some k => l.indexes.claimMetaEvents.filter (·.key = k)
  | none, none => l.indexes.claimMetaEvents

/-- `meta_history_events`. -/
def metaHistoryEvents (l : Ledger) (asrtId : Option String) (key : Option MetaKey) :
    Except StoreErr (List MetaEvent) := do
  let lazy ← l.lazyMetaEvents asrtId key
  .ok (sortEvents (l.eagerMetaEvents asrtId key ++ lazy))

/-- The loop that keeps, for every assertion and key, the last event not after the boundary. -/
def latestOf (asOf : Option EventSeq) (history : List MetaEvent) :
    List ((String × MetaKey) × MetaEvent) :=
  (history.filter fun e => asOf.all (e.eventSeq ≤ ·)).foldl
    (fun latest e => Dict.set latest (e.asrtId, e.key) e) []

/-- The position at which an assertion was created, if both indexes know it. -/
def creationSeq (l : Ledger) (asrtId : String) : Option EventSeq := do
  let txRef ← Dict.get? l.indexes.claimTxRefs asrtId
  let opOrdinal ← Dict.get? l.indexes.claimOpOrdinals asrtId
  some (toLex (txRef, opOrdinal))

/-- The defaults of a transaction that a read asks about. -/
def defaultsFor (l : Ledger) (txSeq : Nat) (key : Option MetaKey) : List TxMetaDefault :=
  let defaults := (Dict.get? l.indexes.txMetaDefaultsByTxSeq txSeq).getD []
  match key with
  | some k => (Dict.get? defaults k.text).toList
  | none => defaults.map Prod.snd

/-- The transaction defaults one assertion inherits. -/
def inherited (l : Ledger) (latest : List ((String × MetaKey) × MetaEvent)) (key : Option MetaKey)
    (kind : Option String) (asOf : Option EventSeq) (asrtId : String) : List MetaEvent :=
  match l.creationSeq asrtId with
  | none => []
  | some seq =>
      if asOf.all (seq ≤ ·) then
        ((l.defaultsFor (ofLex seq).1 key).filter fun d =>
          !latest.any (fun p => p.1.1 = asrtId ∧ p.1.2.text = d.key) && kind.all (d.kind = ·)).map fun d =>
            ⟨asrtId, .plain d.key, some (d.kind, d.value), (ofLex seq).1, (ofLex seq).2⟩
      else []

/-- `effective_meta_events`. -/
def effectiveMetaEvents (l : Ledger) (asrtId : Option String) (key : Option MetaKey)
    (kind : Option String) (asOf : Option EventSeq) : Except StoreErr (List MetaEvent) := do
  let history ← l.metaHistoryEvents asrtId key
  let latest := latestOf asOf history
  let rows := (latest.map Prod.snd).filter fun e => e.cell.any fun cell => kind.all (cell.1 = ·)
  let candidates := match asrtId with
    | some a => [a]
    | none => Dict.keys l.indexes.claimTxRefs
  .ok (sortEvents (rows ++ candidates.flatMap (l.inherited latest key kind asOf)))

/-- `effective_meta_rows`. -/
def effectiveMetaRows (l : Ledger) (asrtId : Option String) (key : Option MetaKey)
    (kind : Option String) (asOf : Option EventSeq) : Except StoreErr (List MetaRow) :=
  (l.effectiveMetaEvents asrtId key kind asOf).map fun events => events.filterMap fun e =>
    e.cell.map fun cell => ⟨e.asrtId, e.key, cell.1, cell.2⟩

/-- `raw.isdecimal()` and `int(raw)`. -/
def decimal? (raw : String) : Option Nat := Rules.digits? raw.toList

/-! ## Sessions -/

/-- `_write_session`. -/
def session (l : Ledger) (body : Tables → Except StoreErr (Tables × Hook Indexes StoreErr)) :
    Ledger × Except StoreErr Unit :=
  let r := Session.run body (l.tables, l.indexes)
  ({ l with tables := r.1.1, indexes := r.1.2 }, r.2)

/-- The hook of a claim with its initial metadata and annotations, at one position. -/
def claimMetaHook (l : Ledger) (metaRows : List MetaRow) (annotationRows : List AnnotationRow)
    (txSeq opOrdinal : Nat) : Hook Indexes StoreErr :=
  (Hook.step (Indexes.idxAddClaimMetaEvents l.isLazy (metaRows.map .row) txSeq opOrdinal true)).andThen
    (if annotationRows.isEmpty then .step id
    else .bind (annotationCompatibilityMetaRows annotationRows metaRows) fun compatibility =>
      .step fun m => (m.idxAddClaimMetaEvents l.isLazy (compatibility.map .row) txSeq opOrdinal
        false).idxAddAnnotations l.isLazy annotationRows)

/-- A claim of the user, its initial metadata and its annotations are written at one position. -/
def insertAssertion (t : Tables) (claim : Claim) (metaRows : List MetaRow)
    (annotationRows : List AnnotationRow) (txSeq opOrdinal : Nat) : Except StoreErr Tables := do
  let t ← t.insertClaim claim txSeq
  let t ← t.insertMetaRows claim.asrtId txSeq opOrdinal (metaRows.map .row)
  if annotationRows.isEmpty then .ok t
  else t.insertAnnotationRows annotationRows txSeq opOrdinal metaRows

/-- The index updates of a claim of the user at one position. -/
def assertionHook (l : Ledger) (claim : Claim) (metaRows : List MetaRow)
    (annotationRows : List AnnotationRow) (txSeq opOrdinal : Nat) : Hook Indexes StoreErr :=
  (Hook.step fun m => (m.setTxRef claim.asrtId txSeq).setOpOrdinal claim.asrtId opOrdinal).andThen
    ((Indexes.idxAddClaim claim).andThen
      (l.claimMetaHook metaRows annotationRows txSeq opOrdinal))

/-! ## Direct writes -/

/-- The arguments of `append_assertion`; `newId` is what `_new_asrt_id` would return. -/
structure AssertionArgs where
  claim : Claim
  claimArgs : List ClaimArg
  metaRows : List MetaRow
  annotationRows : List AnnotationRow := []
  idempotency : Option Idempotency := none
  asrtId : Option String := none
  newId : String := ""

/-- `asrt_id or claim.asrt_id or _new_asrt_id()`. -/
def effectiveId (asrtId : Option String) (own newId : String) : String :=
  match asrtId with
  | some a => if a ≠ "" then a else if own ≠ "" then own else newId
  | none => if own ≠ "" then own else newId

/-- `_materialize_idempotency_meta`. -/
def materializeIdempotencyMeta (rows : List MetaRow) (idempotency : Option Idempotency)
    (asrtId : String) : Except StoreErr (List MetaRow) :=
  match idempotency with
  | none => .ok rows
  | some i => do
      require (i.ingestKey ≠ "") (.valueError "ingest_key must be non-empty string")
      match rows.find? fun row => row.key.text = "ingest_key" with
      | some row => do
          require (row.kind = "str" ∧ row.value = .leaf (.str i.ingestKey))
            (.valueError "ingest_key meta must match the Idempotency ingest_key")
          .ok rows
      | none => .ok (rows ++ [⟨asrtId, .plain "ingest_key", "str", .leaf (.str i.ingestKey)⟩])

/-- The answer an ingest key that is in use gives, `none` if the write goes ahead. -/
def idempotentAnswer (l : Ledger) (idempotency : Option Idempotency) :
    Except StoreErr (Option String) :=
  match idempotency with
  | none => .ok none
  | some i =>
      match l.findIngestKey i.ingestKey with
      | none => .ok none
      | some existing =>
          match i.onConflict with
          | .error => .error (.duplicateIngestKey s!"ingest_key already exists: {i.ingestKey}")
          | .skip => .ok (some existing)

/-- What `append_assertion` writes once its arguments are checked. -/
structure AssertionWrite where
  claim : Claim
  metaRows : List MetaRow
  annotationRows : List AnnotationRow

/-- The checks of `append_assertion` before the ingest key is looked up. -/
def checkAssertion (a : AssertionArgs) : Except StoreErr (List MetaRow) := do
  validateClaimInput a.claim
  validateClaimArgsRows a.claimArgs
  validateMetaRowsForAppendAssertion a.metaRows
  rejectDuplicateMetaKeys "assertion initial meta" a.metaRows
  let id := effectiveId a.asrtId a.claim.asrtId a.newId
  materializeIdempotencyMeta (a.metaRows.map fun row => { row with asrtId := id }) a.idempotency id

/-- The checks of `append_assertion` after the ingest key was found free. -/
def buildAssertion (a : AssertionArgs) (metaRows : List MetaRow) :
    Except StoreErr AssertionWrite := do
  let id := effectiveId a.asrtId a.claim.asrtId a.newId
  normalizeTerms a.claim.restTerms
  let expected ← claimArgsFromRestTerms a.claim.restTerms
  require (a.claimArgs.map (fun row => { row with asrtId := id }) = Indexes.argRows id expected)
    (.valueError "claim_args must exactly match claim.rest_terms")
  let annotationRows := mergeAnnotationRows (initialMetaAnnotationRows metaRows)
    (a.annotationRows.map fun row => { row with asrtId := id })
  validateAnnotationRows annotationRows
  .ok ⟨{ a.claim with asrtId := id }, metaRows, annotationRows⟩

/-- The session of `append_assertion`. -/
def assertionBody (l : Ledger) (w : AssertionWrite) (t : Tables) :
    Except StoreErr (Tables × Hook Indexes StoreErr) := do
  let txSeq := t.nextDirectTxSeq
  let t ← insertAssertion t w.claim w.metaRows w.annotationRows txSeq 0
  .ok (t, l.assertionHook w.claim w.metaRows w.annotationRows txSeq 0)

/-- `append_assertion`. -/
def appendAssertion (l : Ledger) (a : AssertionArgs) : Ledger × Except StoreErr AppendResult :=
  match checkAssertion a with
  | .error e => (l, .error e)
  | .ok metaRows =>
      match l.idempotentAnswer a.idempotency with
      | .error e => (l, .error e)
      | .ok (some existing) => (l, .ok ⟨existing, false⟩)
      | .ok none =>
          match buildAssertion a metaRows with
          | .error e => (l, .error e)
          | .ok w =>
              let r := l.session (l.assertionBody w)
              (r.1, r.2.map fun _ => ⟨w.claim.asrtId, true⟩)

/-- The arguments of `append_revocation`. -/
structure RevocationArgs where
  revokes : Revokes
  metaRows : List MetaRow
  idempotency : Option Idempotency := none
  revokerAsrtId : Option String := none
  newId : String := ""

/-- The checks of `append_revocation` before the ingest key is looked up. -/
def checkRevocation (a : RevocationArgs) : Except StoreErr (List MetaRow) := do
  validateRevokesRow a.revokes
  validateMetaRows a.metaRows
  rejectDuplicateMetaKeys "revocation initial meta" a.metaRows
  let id := effectiveId a.revokerAsrtId a.revokes.revokerAsrtId a.newId
  materializeIdempotencyMeta (a.metaRows.map fun row => { row with asrtId := id }) a.idempotency id

/-- A revocation's claim, metadata and annotations are written at one position. -/
def insertRevocation (t : Tables) (claim : Claim) (metaRows : List MetaRow)
    (annotationRows : List AnnotationRow) (txSeq opOrdinal : Nat) : Except StoreErr Tables :=
  insertAssertion t claim metaRows annotationRows txSeq opOrdinal

/-- The session of `append_revocation`. Its hook adds the annotations, but not the events of their
compatibility rows. -/
def revocationBody (l : Ledger) (revokes : Revokes) (metaRows : List MetaRow)
    (annotationRows : List AnnotationRow) (t : Tables) :
    Except StoreErr (Tables × Hook Indexes StoreErr) :=
  match l.getClaim revokes.revokedAsrtId with
  | none => .error (.valueError s!"revocation target does not exist: {revokes.revokedAsrtId}")
  | some target => do
      let txSeq := t.nextDirectTxSeq
      let claim := revokeClaim revokes target
      let t ← insertRevocation t claim metaRows annotationRows txSeq 0
      .ok (t, (Indexes.idxAddSystemRevocationClaim claim (some txSeq)).andThen
        (.step fun m =>
          let m := (m.setOpOrdinal claim.asrtId 0).idxAddRevoke revokes
          let m := m.idxAddClaimMetaEvents l.isLazy (metaRows.map .row) txSeq 0 true
          m.idxAddAnnotations l.isLazy annotationRows))

/-- `append_revocation`. -/
def appendRevocation (l : Ledger) (a : RevocationArgs) : Ledger × Except StoreErr AppendResult :=
  match checkRevocation a with
  | .error e => (l, .error e)
  | .ok metaRows =>
      match l.idempotentAnswer a.idempotency with
      | .error e => (l, .error e)
      | .ok (some existing) => (l, .ok ⟨existing, false⟩)
      | .ok none =>
          let id := effectiveId a.revokerAsrtId a.revokes.revokerAsrtId a.newId
          let annotationRows := initialMetaAnnotationRows metaRows
          match validateAnnotationRows annotationRows with
          | .error e => (l, .error e)
          | .ok () =>
              let r := l.session
                (l.revocationBody ⟨id, a.revokes.revokedAsrtId⟩ metaRows annotationRows)
              (r.1, r.2.map fun _ => ⟨id, true⟩)

/-- The session of `append_claim`. -/
def claimBody (claim : Claim) (t : Tables) : Except StoreErr (Tables × Hook Indexes StoreErr) := do
  let txSeq := t.nextDirectTxSeq
  let t ← t.insertClaim claim txSeq
  .ok (t, (Hook.step fun m =>
    (m.setTxRef claim.asrtId txSeq).setOpOrdinal claim.asrtId 0).andThen
      (Indexes.idxAddClaim claim))

/-- `append_claim`. -/
def appendClaim (l : Ledger) (claim : Claim) : Ledger × Except StoreErr Unit :=
  match validateIdentifiedClaim claim, normalizeTerms claim.restTerms with
  | .error e, _ | .ok _, .error e => (l, .error e)
  | .ok _, .ok _ => l.session (claimBody claim)

/-- The checks that every row names a known assertion. -/
def requireKnown (l : Ledger) (what : String) (asrtIds : List String) : Except StoreErr Unit :=
  each (fun a => require (l.isKnownAsrtId a) (.valueError s!"unknown asrt_id for {what}: {a}"))
    asrtIds

/-- One row at every ordinal, from `opOrdinal` on. -/
def insertOneByOne (txSeq : Nat) (opOrdinal : Nat) (t : Tables) :
    List MetaAppend → Except StoreErr Tables
  | [] => .ok t
  | a :: rest => do
      let t ← t.insertMetaRows a.asrtId txSeq opOrdinal [a]
      insertOneByOne txSeq (opOrdinal + 1) t rest

/-- The checks of `append_meta`. -/
def checkMeta (l : Ledger) (rows : List MetaRow) : Except StoreErr Unit := do
  validateMetaRows rows
  l.requireKnown "meta" (rows.map (·.asrtId))

/-- The session of `append_meta`. -/
def metaBody (l : Ledger) (rows : List MetaRow) (t : Tables) :
    Except StoreErr (Tables × Hook Indexes StoreErr) := do
  let txSeq := t.nextDirectTxSeq
  let t ← insertOneByOne txSeq 0 t (rows.map .row)
  .ok (t, .step fun m => rows.zipIdx.foldl (fun m p =>
    m.idxAddClaimMetaEvents l.isLazy [.row p.1] txSeq p.2 true) m)

/-- `append_meta` on a ledger without a managed writer. -/
def appendMeta (l : Ledger) (rows : List MetaRow) : Ledger × Except StoreErr Unit :=
  match l.checkMeta rows with
  | .error e => (l, .error e)
  | .ok () =>
      -- the rows are rebuilt as plain `MetaRow`s
      l.session (l.metaBody (rows.map fun row => { row with key := .plain row.key.text }))

/-- The checks of `append_annotations`. -/
def checkAnnotations (l : Ledger) (rows : List AnnotationRow) : Except StoreErr Unit := do
  validateAnnotationRows rows
  l.requireKnown "annotation" (rows.map (·.asrtId))

/-- The session of `append_annotations`. -/
def annotationsBody (l : Ledger) (rows : List AnnotationRow) (t : Tables) :
    Except StoreErr (Tables × Hook Indexes StoreErr) := do
  let txSeq := t.nextDirectTxSeq
  let t ← rows.zipIdx.foldlM (fun t p => t.insertAnnotationRows [p.1] txSeq p.2 []) t
  .ok (t, (Hook.each (fun p => .bind (annotationCompatibilityMetaRows [p.1] [])
    fun compatibility => .step (Indexes.idxAddClaimMetaEvents l.isLazy
      (compatibility.map .row) txSeq p.2 false)) rows.zipIdx).andThen
    (.step (Indexes.idxAddAnnotations l.isLazy rows)))

/-- `append_annotations` on a ledger without a managed writer. -/
def appendAnnotations (l : Ledger) (rows : List AnnotationRow) : Ledger × Except StoreErr Unit :=
  match l.checkAnnotations rows with
  | .error e => (l, .error e)
  | .ok () => l.session (l.annotationsBody rows)

/-- The session of `append_revokes`. -/
def revokesBody (l : Ledger) (row : Revokes) (t : Tables) :
    Except StoreErr (Tables × Hook Indexes StoreErr) :=
  match l.getClaim row.revokedAsrtId with
  | none => .error (.valueError s!"revocation target does not exist: {row.revokedAsrtId}")
  | some target => do
      let txSeq := t.nextDirectTxSeq
      let claim := revokeClaim row target
      let t ← t.insertClaim claim txSeq
      .ok (t, (Indexes.idxAddSystemRevocationClaim claim (some txSeq)).andThen
        (.step fun m => (m.setOpOrdinal claim.asrtId 0).idxAddRevoke row))

/-- `append_revokes`. -/
def appendRevokes (l : Ledger) (row : Revokes) : Ledger × Except StoreErr Unit :=
  match validateRevokesRow row with
  | .error e => (l, .error e)
  | .ok () => l.session (l.revokesBody row)

/-- `set_ledger_meta`: an existing value is kept. -/
def setLedgerMeta (l : Ledger) (key value : String) : Ledger × Except StoreErr Unit :=
  l.session fun t =>
    if Dict.has t.ledgerMeta key then .ok (t, .step id)
    else .ok ({ t with ledgerMeta := Dict.set t.ledgerMeta key value }, .step id)

/-- `replace_ledger_meta`. -/
def replaceLedgerMeta (l : Ledger) (key value : String) : Ledger × Except StoreErr Unit :=
  l.session fun t => .ok ({ t with ledgerMeta := Dict.set t.ledgerMeta key value }, .step id)

/-! ## Transaction defaults -/

/-- The dictionary `replace_tx_meta_defaults` builds. -/
def normalizeTxMetaDefaults (rows : List TxMetaDefault) :
    Except StoreErr (List (Nat × List (String × TxMetaDefault))) :=
  rows.foldlM (fun normalized row => do
    require (row.key ≠ "") (.valueError "TxMetaDefault.key must be a non-empty string")
    require (row.kind ∈ metaKinds) (.valueError s!"unsupported TxMetaDefault kind: {row.kind}")
    let byKey := (Dict.get? normalized row.txSeq).getD []
    require (!Dict.has byKey row.key) (.valueError
      s!"duplicate TxMetaDefault key for tx_seq {row.txSeq}: {row.key}")
    .ok (Dict.set normalized row.txSeq (Dict.set byKey row.key row))) []

/-- `replace_tx_meta_defaults`. -/
def replaceTxMetaDefaults (l : Ledger) (rows : List TxMetaDefault) :
    Ledger × Except StoreErr Unit :=
  match normalizeTxMetaDefaults rows with
  | .error e => (l, .error e)
  | .ok normalized => ({ l with indexes.txMetaDefaultsByTxSeq := normalized }, .ok ())

/-- `record_tx_meta_defaults`. -/
def recordTxMetaDefaults (l : Ledger) (rows : List TxMetaDefault) : Ledger × Except StoreErr Unit :=
  l.replaceTxMetaDefaults
    ((l.indexes.txMetaDefaultsByTxSeq.flatMap fun p => p.2.map Prod.snd) ++ rows)

end Ledger

end FactGraph.Store
