import FactGraph.Store.Ledger

/-!
# Batch commits

`Ledger.commit_batch`: the one write that carries its own sequence number and advances the head. All of
the batch is checked first; then one session inserts every row under the head compare-and-swap, and
the hook brings the indexes up to date once the session has committed.
-/

namespace FactGraph.Store

open Protocol Check Session

/-- `LedgerAssertionWrite`. -/
structure LedgerAssertionWrite where
  claim : Claim
  claimArgs : List ClaimArg
  metaRows : List MetaRow
  annotationRows : List AnnotationRow := []

/-- `LedgerRevocationWrite`. -/
structure LedgerRevocationWrite where
  revokes : Revokes
  metaRows : List MetaRow := []
  annotationRows : List AnnotationRow := []

/-- The arguments of `commit_batch`. -/
structure Batch where
  assertions : List LedgerAssertionWrite := []
  revocations : List LedgerRevocationWrite := []
  expectedHeadTxId : Option String
  headTxId : String
  metadata : List (String × String)
  metaAppends : List MetaAppend := []

namespace Batch

/-- The annotations of the initial metadata are merged under the explicit ones. -/
def mergedAssertions (b : Batch) : List LedgerAssertionWrite :=
  b.assertions.map fun item =>
    { item with
      annotationRows :=
        mergeAnnotationRows (initialMetaAnnotationRows item.metaRows) item.annotationRows }

def mergedRevocations (b : Batch) : List LedgerRevocationWrite :=
  b.revocations.map fun item =>
    { item with
      annotationRows :=
        mergeAnnotationRows (initialMetaAnnotationRows item.metaRows) item.annotationRows }

/-- The ids of the new claims. -/
def newClaimIds (b : Batch) : List String := b.assertions.map (·.claim.asrtId)

/-- The ids of the new revocations. -/
def newRevokerIds (b : Batch) : List String := b.revocations.map (·.revokes.revokerAsrtId)

/-! ## Checks -/

/-- The checks of the head and of the lifecycle metadata. -/
def checkHead (b : Batch) : Except StoreErr Unit := do
  require (b.headTxId ≠ "") (.valueError "head_tx_id must be non-empty string")
  require (b.expectedHeadTxId ≠ some "")
    (.valueError "expected_head_tx_id must be non-empty string when provided")
  require (!Dict.has b.metadata "head_tx_id")
    (.valueError "metadata must not contain head_tx_id; use the dedicated argument")
  each (fun p => require (p.1 ≠ "")
    (.valueError "ledger metadata keys must be non-empty strings")) b.metadata

/-- `int(normalized_metadata["head_tx_seq"])`. -/
def txSeq (b : Batch) : Except StoreErr Nat :=
  match (Dict.get? b.metadata "head_tx_seq").bind Ledger.decimal? with
  | some n => .ok n
  | none => .error (.valueError "metadata head_tx_seq must be a canonical non-negative integer")

/-- The checks of one new claim; `seen` are the ids of the claims before it. -/
def checkAssertion (seen : List String) (item : LedgerAssertionWrite) : Except StoreErr Unit := do
  validateIdentifiedClaim item.claim
  validateClaimArgsRows item.claimArgs
  validateMetaRows item.metaRows
  rejectDuplicateMetaKeys "assertion initial meta" item.metaRows
  validateAnnotationRows item.annotationRows
  let id := item.claim.asrtId
  require (id ∉ seen) (.valueError s!"duplicate asrt_id in batch: {id}")
  require (item.claimArgs.all (·.asrtId = id))
    (.valueError "claim_args asrt_id must match the batch claim")
  require (item.metaRows.all (·.asrtId = id))
    (.valueError "meta_rows asrt_id must match the batch claim")
  require (item.annotationRows.all (·.asrtId = id))
    (.valueError "annotation_rows asrt_id must match the batch claim")

def checkAssertions (seen : List String) : List LedgerAssertionWrite → Except StoreErr Unit
  | [] => .ok ()
  | item :: rest => do
      checkAssertion seen item
      checkAssertions (item.claim.asrtId :: seen) rest

/-- The checks of one revocation; `seen` are the ids of the batch before it. -/
def checkRevocation (seen : List String) (item : LedgerRevocationWrite) : Except StoreErr Unit := do
  validateRevokesRow item.revokes
  validateMetaRows item.metaRows
  rejectDuplicateMetaKeys "revocation initial meta" item.metaRows
  validateAnnotationRows item.annotationRows
  let id := item.revokes.revokerAsrtId
  require (id ∉ seen) (.valueError s!"duplicate revoker_asrt_id in batch: {id}")
  require (item.metaRows.all (·.asrtId = id))
    (.valueError "revocation meta_rows asrt_id must match revoker_asrt_id")
  require (item.annotationRows.all (·.asrtId = id))
    (.valueError "revocation annotation_rows asrt_id must match revoker_asrt_id")

def checkRevocations (seen : List String) : List LedgerRevocationWrite → Except StoreErr Unit
  | [] => .ok ()
  | item :: rest => do
      checkRevocation seen item
      checkRevocations (item.revokes.revokerAsrtId :: seen) rest

/-- Everything `commit_batch` checks before it opens the session; it returns the sequence number. -/
def check (l : Ledger) (b : Batch) : Except StoreErr Nat := do
  b.checkHead
  validateMetaEvents b.metaAppends
  let n ← b.txSeq
  checkAssertions [] b.mergedAssertions
  checkRevocations b.newClaimIds b.mergedRevocations
  each (fun a => require
    (decide (a.asrtId ∈ b.newClaimIds ++ b.newRevokerIds) || l.isKnownAsrtId a.asrtId)
    (.valueError s!"unknown asrt_id for meta: {a.asrtId}")) b.metaAppends
  .ok n

/-! ## The session -/

/-- `LedgerHeadConflictError(f"head CAS failed: expected {expected_head_tx_id!r}")`. -/
def headConflict (b : Batch) : StoreErr :=
  .ledgerHeadConflict <| match b.expectedHeadTxId with
    | none => "head CAS failed: expected None"
    | some expected => s!"head CAS failed: expected '{expected}'"

/-- The head compare-and-swap. -/
def swapHead (b : Batch) (t : Tables) : Except StoreErr Tables :=
  if Dict.get? t.ledgerMeta "head_tx_id" = b.expectedHeadTxId then
    .ok { t with ledgerMeta := Dict.set t.ledgerMeta "head_tx_id" b.headTxId }
  else .error b.headConflict

theorem swapHead_ok_iff {b : Batch} {t t' : Tables} : b.swapHead t = .ok t' ↔
    Dict.get? t.ledgerMeta "head_tx_id" = b.expectedHeadTxId ∧
      t' = { t with ledgerMeta := Dict.set t.ledgerMeta "head_tx_id" b.headTxId } := by
  unfold swapHead
  by_cases h : Dict.get? t.ledgerMeta "head_tx_id" = b.expectedHeadTxId
  · simp [h, eq_comm]
  · simp [h]

/-- The claim a revocation targets: one of the ledger, or one of the batch. -/
def target? (b : Batch) (known : String → Option Claim) (revokedAsrtId : String) : Option Claim :=
  (known revokedAsrtId).or
    ((b.assertions.find? fun item => item.claim.asrtId = revokedAsrtId).map (·.claim))

/-- The new claims, from ordinal `op` on. -/
def insertAssertions (txSeq op : Nat) (t : Tables) :
    List LedgerAssertionWrite → Except StoreErr Tables
  | [] => .ok t
  | item :: rest => do
      let t ← Ledger.insertAssertion t item.claim item.metaRows item.annotationRows txSeq op
      insertAssertions txSeq (op + 1) t rest

/-- The revocations, from ordinal `op` on. -/
def insertRevocations (b : Batch) (l : Ledger) (txSeq op : Nat) (t : Tables) :
    List LedgerRevocationWrite → Except StoreErr Tables
  | [] => .ok t
  | item :: rest =>
      match b.target? l.getClaim item.revokes.revokedAsrtId with
      | none => .error (.valueError
          s!"revocation target does not exist: {item.revokes.revokedAsrtId}")
      | some target => do
          let t ← Ledger.insertRevocation t (revokeClaim item.revokes target) item.metaRows
            item.annotationRows txSeq op
          insertRevocations b l txSeq (op + 1) t rest

/-- `ON CONFLICT(key) DO UPDATE` on every item of the metadata. -/
def upsertMetadata (b : Batch) (t : Tables) : Tables :=
  { t with ledgerMeta := Dict.update t.ledgerMeta (b.metadata.insertionSort fun p q => p.1 ≤ q.1) }

/-- The statements of the session, in order. -/
def body (l : Ledger) (b : Batch) (txSeq : Nat) (t : Tables) : Except StoreErr Tables := do
  each (fun a => require (!l.isKnownAsrtId a) (.valueError s!"duplicate asrt_id: {a}"))
    (b.newClaimIds ++ b.newRevokerIds)
  let t ← b.swapHead t
  let t ← insertAssertions txSeq 0 t b.mergedAssertions
  let t ← insertRevocations b l txSeq b.assertions.length t b.mergedRevocations
  let t ← Ledger.insertOneByOne txSeq (b.assertions.length + b.revocations.length) t b.metaAppends
  .ok (b.upsertMetadata t)

/-! ## The hook -/

/-- The index updates of one revocation. -/
def revocationHook (l : Ledger) (b : Batch) (txSeq op : Nat) (item : LedgerRevocationWrite) :
    Hook Indexes StoreErr := fun m =>
  match b.target? (Dict.get? m.claimByAsrtId ·) item.revokes.revokedAsrtId with
  | none => (m, .error (.valueError "StopIteration"))
  | some target =>
      ((Indexes.idxAddSystemRevocationClaim (revokeClaim item.revokes target) (some txSeq)).andThen
        ((Hook.step fun m => (m.setOpOrdinal item.revokes.revokerAsrtId op).idxAddRevoke
          item.revokes).andThen
          (l.claimMetaHook item.metaRows item.annotationRows txSeq op))) m

/-- The index updates of one appended event. -/
def appendHook (l : Ledger) (txSeq op : Nat) (a : MetaAppend) : Hook Indexes StoreErr :=
  match a with
  | .row row =>
      match row.key with
      | .plain _ => .step (Indexes.idxAddClaimMetaEvents l.isLazy [a] txSeq op true)
      | .storage _ =>
          (Hook.step (Indexes.idxAddClaimMetaEvents l.isLazy [a] txSeq op false)).andThen
            (.bind (annotationFromStorageKey row.asrtId row.key row.kind row.value) fun row =>
              .step (Indexes.idxAddAnnotations l.isLazy [row]))
  | .unset _ => .step (Indexes.idxAddClaimMetaEvents l.isLazy [a] txSeq op false)

/-- `_apply_batch_indexes`. -/
def hook (l : Ledger) (b : Batch) (txSeq : Nat) : Hook Indexes StoreErr :=
  (Hook.each (fun p => l.assertionHook p.1.claim p.1.metaRows p.1.annotationRows txSeq p.2)
    b.mergedAssertions.zipIdx).andThen
  ((Hook.each (fun p => revocationHook l b txSeq p.2 p.1)
    (b.mergedRevocations.zipIdx b.assertions.length)).andThen
  (Hook.each (fun p => appendHook l txSeq p.2 p.1)
    (b.metaAppends.zipIdx (b.assertions.length + b.revocations.length))))

end Batch

/-- The session of `commit_batch`. -/
def Ledger.commitBody (l : Ledger) (b : Batch) (txSeq : Nat) (t : Tables) :
    Except StoreErr (Tables × Hook Indexes StoreErr) := do
  let t ← b.body l txSeq t
  .ok (t, b.hook l txSeq)

/-- `commit_batch`. -/
def Ledger.commitBatch (l : Ledger) (b : Batch) : Ledger × Except StoreErr Unit :=
  match b.check l with
  | .error e => (l, .error e)
  | .ok txSeq => l.session (l.commitBody b txSeq)

end FactGraph.Store
