import FactGraph.Db.Encoding
import FactGraph.Store.Commit

/-!
# Committing to a database

`Database.commit_changes` in `core/store/database.py`, for assertions and revocations: the changes
are prepared against the ledger, hashed into a transaction under the head, and handed to the ledger
as one batch that swaps the head.

A database in memory is modelled, open and with one writer: the objects a durable one writes beside
its ledger, the workspace lock and the calls with metadata appends, defaults or a schema transition
are left out. The ids `_new_assertion_id` returns are an argument.
-/

namespace FactGraph.Db

open Protocol Store Check

/-- A database: its ledger, its id and the digest of its schema. -/
structure Database where
  ledger : Ledger
  dbId : String
  schemaDigest : String

/-- `AssertionInput`. -/
structure AssertionInput where
  predId : String
  factTuple : List Term
  entries : List MetaEntry

/-- `RevocationInput`. -/
structure RevocationInput where
  revokedAsrtId : String
  entries : List MetaEntry

/-- `AssertionRecord`. -/
structure AssertionRecord where
  asrtId : String
  predId : String
  factTuple : List Term
  schemaDigest : String
  assertionDigest : String
  txId : String
  entries : List MetaEntry

/-- `RevocationRecord`. -/
structure RevocationRecord where
  revokerAsrtId : String
  revokedAsrtId : String
  txId : String
  entries : List MetaEntry

/-- `DatabaseValue`; its digest scheme is always the accumulator's. -/
structure DatabaseValue where
  dbId : String
  txId : String
  schemaDigest : String
  stateDigest : String
  txSeq : Nat

/-- `CommitResult`. -/
structure CommitResult where
  parentTxId : String
  value : DatabaseValue
  assertions : List AssertionRecord
  revocations : List RevocationRecord

/-! ## The head -/

/-- `_head_metadata`. -/
def headMetadata (dbId schemaDigest stateDigest : String) (txSeq : Nat) :
    Except StoreErr (List (String × String)) := do
  let _ ← decodeState stateDigest
  let dbId ← requireDbId dbId
  let schemaDigest ← requireToken schemaDigest "sha256:" "schema_digest"
  .ok [("db_id", dbId), ("schema_digest", schemaDigest), ("head_state_digest", stateDigest),
    ("digest_scheme", LtState.scheme), ("head_tx_seq", toString txSeq)]

/-- The keys of the head, in the order they are read. -/
def headKeys : List String :=
  ["db_id", "schema_digest", "head_tx_id", "head_state_digest", "digest_scheme", "head_tx_seq"]

/-- `int(raw_seq)`, if the number is spelled canonically. -/
def headTxSeq? (rawSeq : String) : Option Nat :=
  (Ledger.decimal? rawSeq).filter fun n => toString n = rawSeq

/-- `_read_ledger_head`. -/
def readLedgerHead (l : Ledger) (expectedSchemaDigest dbId : String) :
    Except StoreErr DatabaseValue := do
  let read (key : String) : String := (l.getLedgerMeta key).getD ""
  let missing := headKeys.filter fun key => (l.getLedgerMeta key).isNone
  require missing.isEmpty
    (.database ("Database head metadata missing: " ++ ", ".intercalate missing))
  let own ← requireDbId dbId
  require (read "db_id" = own) (.database "ledger_meta db_id mismatch")
  let schemaToken ← requireToken (read "schema_digest") "sha256:" "schema_digest"
  let expected ← requireToken expectedSchemaDigest "sha256:" "expected_schema_digest"
  require (schemaToken = expected) (.database "ledger_meta schema_digest mismatch")
  let scheme := read "digest_scheme"
  require (scheme = LtState.scheme) (.database s!"unsupported digest_scheme: '{scheme}'")
  match decodeState (read "head_state_digest") with
  | .error (.valueError msg) => .error (.database s!"invalid head_state_digest: {msg}")
  | .error e => .error e
  | .ok _ =>
      match headTxSeq? (read "head_tx_seq") with
      | none => .error (.database "head_tx_seq must use canonical decimal encoding")
      | some txSeq => do
          let txId ← requireToken (read "head_tx_id") "tx:" "head_tx_id"
          .ok ⟨own, txId, schemaToken, read "head_state_digest", txSeq⟩

/-- `head`. -/
def Database.head (d : Database) : Except StoreErr DatabaseValue :=
  readLedgerHead d.ledger d.schemaDigest d.dbId

/-! ## Digests of the ledger -/

/-- `_projected_meta_rows_from_sql`. -/
def projectedMetaRows (l : Ledger) : Except StoreErr (List MetaRow) :=
  let rows := (l.tables.claimMeta.rows.filter fun r => r.cell.isSome).insertionSort
    fun r s => toLex (r.txSeq, r.opOrdinal) ≤ toLex (s.txSeq, s.opOrdinal)
  (mapOk (fun r => match r.cell with
    | none => .ok none
    | some cell => (decodeMetaValue cell).map fun value =>
        if startsWith annotationCompatPrefix r.key.text then none
        else some (MetaRow.mk r.asrtId r.key cell.kind value)) rows).map List.reduceOption

/-- `find_meta(asrt_id=…)`. -/
def findMeta (l : Ledger) (asrtId : String) : Except StoreErr (List MetaRow) :=
  if l.lazyMetaKeys.isEmpty then .ok (Buckets.get l.indexes.metaByAsrtId asrtId)
  else (projectedMetaRows l).map fun rows => rows.filter fun r => r.asrtId = asrtId

/-- The rows of `_verified_assertion_digest` for one reserved key. -/
def reservedRows (rows : List MetaRow) (key : String) : List MetaRow :=
  rows.filter fun r => r.key.text = key && r.kind = "str"

/-- `MetaEntry(row.key, row.kind, row.value)`. -/
def entryOf (row : MetaRow) : MetaEntry := ⟨row.key.text, row.kind, row.value⟩

/-- The text of a row of kind `str`. -/
def textOf (row : MetaRow) : String :=
  match row.value with
  | .leaf (.str s) => s
  | _ => ""

/-- The part of `_verified_assertion_digest` under its `try`: the stored digest and the recomputed
one. -/
def recomputedDigest (host : Host) (claim : Claim) (rows : List MetaRow)
    (digest schema tx : MetaRow) : Except StoreErr (String × String) := do
  let stored ← requireToken (textOf digest) "sha256:" "assertion_digest"
  let schemaDigest ← requireToken (textOf schema) "sha256:" "schema_digest"
  let _ ← requireToken (textOf tx) "tx:" "tx_id"
  let txRowIndex := rows.findIdx (· = tx)
  require (decide (rows.findIdx (· = digest) < txRowIndex) &&
      decide (rows.findIdx (· = schema) < txRowIndex))
    (.database "reserved assertion identity metadata is out of order")
  let userRows := (rows.take txRowIndex).filter fun r => r.key.text ∉ reservedAssertionMetaKeys
  normalizeMetaEntries (userRows.map entryOf)
  let recomputed ← assertionDigestFor host claim.predId
    (("entity_ref", .leaf (.str claim.eRef)) :: claim.restTerms) schemaDigest (userRows.map entryOf)
  .ok (stored, recomputed)

/-- `_verified_assertion_digest`. -/
def verifiedAssertionDigest (host : Host) (l : Ledger) (claim : Claim) : Except StoreErr String := do
  let rows ← findMeta l claim.asrtId
  match reservedRows rows "assertion_digest", reservedRows rows "schema_digest",
      reservedRows rows "tx_id" with
  | [digest], [schema], [tx] =>
      match recomputedDigest host claim rows digest schema tx with
      | .error (.database _) => .error (.database
          s!"assertion {claim.asrtId} has malformed identity metadata")
      | .error e => .error e
      | .ok (stored, recomputed) => do
          require (recomputed = stored) (.database
            s!"assertion_digest does not match factual content for {claim.asrtId}")
          .ok stored
  | _, _, _ => .error (.database
      (s!"assertion {claim.asrtId} must have exactly one assertion_digest, " ++
        "schema_digest and tx_id metadata row"))

/-! ## Preparing -/

/-- The `tx_id` of a record that is not committed yet. -/
def provisionalTxId : String := "tx:" ++ String.ofList (List.replicate 64 '0')

/-- `_annotation_rows`. -/
def annotationRows (asrtId : String) (entries : List MetaEntry) : List AnnotationRow :=
  entries.filterMap fun entry => (sharedAnnotationKey? entry.key).map fun (category, origin) =>
    { asrtId, ns := "shared", category, key := entry.key, kind := entry.kind, value := entry.value,
      origin, derivation := none }

/-- `MetaRow(asrt_id, row.key, row.kind, row.value)`. -/
def metaRowOf (asrtId : String) (entry : MetaEntry) : MetaRow :=
  ⟨asrtId, .plain entry.key, entry.kind, entry.value⟩

/-- What `_prepare_assertion` returns. -/
structure PreparedAssertion where
  record : AssertionRecord
  claim : Claim
  claimArgs : List ClaimArg
  metaRows : List MetaRow
  annotationRows : List AnnotationRow

/-- The checks `_prepare_assertion` and `_prepare_revocations` share. -/
def checkInitialMeta (entries : List MetaEntry) (context : String) : Except StoreErr Unit := do
  normalizeMetaEntries entries
  rejectDuplicateInitialMetaKeys entries context
  rejectReservedMetaKeys (entries.map (·.key)) "assertion/revocation meta"

/-- The reference in front of a tuple. -/
def factRef (factTuple : List Term) : String :=
  match factTuple with
  | (_, .leaf (.str eRef)) :: _ => eRef
  | _ => ""

/-- `_prepare_assertion`. -/
def prepareAssertion (host : Host) (schemaDigest : String) (item : AssertionInput)
    (asrtId : String) : Except StoreErr PreparedAssertion := do
  require (!startsWith systemPrefix item.predId)
    (.database "user assertions cannot use the reserved '__system__.' namespace")
  normalizeFactTuple item.factTuple
  checkInitialMeta item.entries "assertion initial meta"
  let assertionDigest ← assertionDigestFor host item.predId item.factTuple schemaDigest item.entries
  let restTerms := item.factTuple.tail
  let rows ← claimArgsFromRestTerms restTerms
  .ok { record := ⟨asrtId, item.predId, item.factTuple, schemaDigest, assertionDigest,
          provisionalTxId, item.entries⟩
        claim := ⟨asrtId, item.predId, factRef item.factTuple, restTerms⟩
        claimArgs := Indexes.argRows asrtId rows
        metaRows := item.entries.map (metaRowOf asrtId)
        annotationRows := annotationRows asrtId item.entries }

/-- The digest of the target of a revocation: of a new assertion, or of a claim of the ledger. -/
def targetDigest (host : Host) (l : Ledger) (added : List PreparedAssertion) (target : String) :
    Except StoreErr String :=
  match (added.map (·.record)).find? fun record => record.asrtId = target with
  | some record => do
      require (!startsWith systemPrefix record.predId)
        (.database "system claims cannot be revoked")
      .ok record.assertionDigest
  | none =>
      match l.getClaim target with
      | none => .error (.database
          (if l.indexes.revokesData.any (·.revokerAsrtId = target) then
            "revoke-of-revoke is forbidden"
          else s!"revocation target does not exist: {target}"))
      | some claim => do
          require (!startsWith systemPrefix claim.predId)
            (.database "system claims cannot be revoked")
          require (!l.hasActiveRevocation target)
            (.database s!"assertion is already revoked: {target}")
          verifiedAssertionDigest host l claim

/-- What `_prepare_revocations` returns for one item. -/
structure PreparedRevocation where
  record : RevocationRecord
  metaRows : List MetaRow
  targetDigest : String

/-- One turn of `_prepare_revocations`; `targets` are the targets before it. -/
def prepareRevocation (host : Host) (l : Ledger) (added : List PreparedAssertion)
    (targets : List String) (item : RevocationInput) (revokerId : String) :
    Except StoreErr PreparedRevocation := do
  let target ← requireAsrtId item.revokedAsrtId "revoked_asrt_id"
  require (target ∉ targets) (.database s!"duplicate revocation target in commit: {target}")
  let digest ← targetDigest host l added target
  checkInitialMeta item.entries "revocation initial meta"
  .ok { record := ⟨revokerId, target, provisionalTxId, item.entries⟩
        metaRows := item.entries.map (metaRowOf revokerId)
        targetDigest := digest }

/-- `_prepare_revocations`; every item comes with the id of its revoker. -/
def prepareRevocations (host : Host) (l : Ledger) (added : List PreparedAssertion)
    (targets : List String) : List (RevocationInput × String) →
    Except StoreErr (List PreparedRevocation)
  | [] => .ok []
  | (item, revokerId) :: rest => do
      let prepared ← prepareRevocation host l added targets item revokerId
      let others ← prepareRevocations host l added (item.revokedAsrtId :: targets) rest
      .ok (prepared :: others)

/-! ## The commit -/

/-- The state after the assertions. -/
def addAll (host : Host) (state : LtState) : List PreparedAssertion → Except StoreErr LtState
  | [] => .ok state
  | p :: rest => do
      let element ← stateElement p.record.asrtId p.record.assertionDigest
      addAll host (state.combine (hashElement host element) false) rest

/-- The state after the revocations. -/
def removeAll (host : Host) (state : LtState) : List PreparedRevocation → Except StoreErr LtState
  | [] => .ok state
  | p :: rest => do
      let element ← stateElement p.record.revokedAsrtId p.targetDigest
      removeAll host (state.combine (hashElement host element) true) rest

/-- The operations of the transaction. -/
def operationsOf (assertions : List PreparedAssertion) (revocations : List PreparedRevocation) :
    List TxOperation :=
  assertions.map (fun p => .assertion p.record.asrtId p.record.assertionDigest) ++
    revocations.map fun p => .revocation p.record.revokerAsrtId p.record.revokedAsrtId p.record.entries

/-- The write of one assertion. -/
def assertionWrite (txId : String) (p : PreparedAssertion) : LedgerAssertionWrite where
  claim := p.claim
  claimArgs := p.claimArgs
  metaRows := p.metaRows ++
    [⟨p.record.asrtId, .plain "schema_digest", "str", .leaf (.str p.record.schemaDigest)⟩,
      ⟨p.record.asrtId, .plain "assertion_digest", "str", .leaf (.str p.record.assertionDigest)⟩,
      ⟨p.record.asrtId, .plain "tx_id", "str", .leaf (.str txId)⟩]
  annotationRows := p.annotationRows

/-- The write of one revocation. -/
def revocationWrite (schemaDigest txId : String) (p : PreparedRevocation) :
    LedgerRevocationWrite where
  revokes := ⟨p.record.revokerAsrtId, p.record.revokedAsrtId⟩
  metaRows := p.metaRows ++
    [⟨p.record.revokerAsrtId, .plain "schema_digest", "str", .leaf (.str schemaDigest)⟩,
      ⟨p.record.revokerAsrtId, .plain "tx_id", "str", .leaf (.str txId)⟩]
  annotationRows := annotationRows p.record.revokerAsrtId p.record.entries

/-- The batch of a commit, and what it returns once the batch is written. -/
structure Change where
  batch : Batch
  result : CommitResult

/-- `commit_changes` up to the call of the ledger. The assertions take the first ids, the revocations
the next ones. -/
def Database.prepareChanges (host : Host) (d : Database) (assertions : List AssertionInput)
    (revocations : List RevocationInput) (ids : Nat → String) : Except StoreErr Change := do
  require (!assertions.isEmpty || !revocations.isEmpty)
    (.database "commit_changes requires at least one change")
  let parent ← d.head
  let prepared ← mapOk (fun p => prepareAssertion host d.schemaDigest p.1 (ids p.2))
    assertions.zipIdx
  let addedIds := prepared.map (·.record.asrtId)
  require (decide addedIds.Nodup)
    (.database "duplicate server-generated assertion id in commit")
  each (fun a => require (d.ledger.getClaim a).isNone
    (.database s!"assertion already exists: {a}")) addedIds
  let preparedRevocations ← prepareRevocations host d.ledger prepared []
    ((revocations.zipIdx assertions.length).map fun p => (p.1, ids p.2))
  let state ← decodeState parent.stateDigest
  let state ← addAll host state prepared
  let state ← removeAll host state preparedRevocations
  let txSeq := parent.txSeq + 1
  let txId ← txIdForV2 host (some parent.txId) d.schemaDigest txSeq
    (operationsOf prepared preparedRevocations)
  let metadata ← headMetadata d.dbId d.schemaDigest state.encode txSeq
  .ok { batch :=
          { assertions := prepared.map (assertionWrite txId)
            revocations := preparedRevocations.map (revocationWrite d.schemaDigest txId)
            expectedHeadTxId := some parent.txId
            headTxId := txId
            metadata }
        result :=
          { parentTxId := parent.txId
            value := ⟨d.dbId, txId, d.schemaDigest, state.encode, txSeq⟩
            assertions := prepared.map fun p => { p.record with txId }
            revocations := preparedRevocations.map fun p => { p.record with txId } } }

/-- `commit_changes`. -/
def Database.commitChanges (host : Host) (d : Database) (assertions : List AssertionInput)
    (revocations : List RevocationInput) (ids : Nat → String) :
    Database × Except StoreErr CommitResult :=
  match d.prepareChanges host assertions revocations ids with
  | .error e => (d, .error e)
  | .ok change =>
      match d.ledger.commitBatch change.batch with
      | (l, .error (.ledgerHeadConflict msg)) => ({ d with ledger := l }, .error (.database msg))
      | (l, .error e) => ({ d with ledger := l }, .error e)
      | (l, .ok ()) => ({ d with ledger := l }, .ok change.result)

/-- `_create_memory`, with the id `_new_db_id` returns. -/
def create (host : Host) (dbId schemaDigest : String) : Except StoreErr Database := do
  let txId ← txIdForV2 host none schemaDigest 0 []
  let metadata ← headMetadata dbId schemaDigest LtState.empty.encode 0
  match Ledger.empty.commitBatch { expectedHeadTxId := none, headTxId := txId, metadata } with
  | (_, .error e) => .error e
  | (l, .ok ()) => .ok ⟨l, dbId, schemaDigest⟩

end FactGraph.Db
