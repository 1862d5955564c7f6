import FactGraph.Lib.Buckets
import FactGraph.Lib.Session
import FactGraph.Store.Tables

/-!
# The in-memory indexes

`Ledger._reset_indexes` and the `_idx_add_*` methods: the write-through cache every read of a ledger
goes to. The hooks run after `COMMIT`; the two that parse what they are given (`idxAddClaim`,
`idxAddSystemRevocationClaim`) can raise there.
-/

namespace FactGraph.Store

open Protocol Session

/-- The attributes set by `_reset_indexes`. -/
structure Indexes where
  claims : List Claim := []
  claimByAsrtId : List (String × Claim) := []
  claimsByPredId : List (String × List Claim) := []
  claimsByERef : List (String × List Claim) := []
  claimsByPredERef : List ((String × String) × List Claim) := []
  systemClaimByAsrtId : List (String × Claim) := []
  claimTxRefs : List (String × Nat) := []
  claimOpOrdinals : List (String × Nat) := []
  claimMetaEvents : List MetaEvent := []
  claimMetaEventsByAsrtId : List (String × List MetaEvent) := []
  claimMetaEventsByAsrtIdKey : List ((String × MetaKey) × List MetaEvent) := []
  txMetaDefaultsByTxSeq : List (Nat × List (String × TxMetaDefault)) := []
  claimArgs : List ClaimArg := []
  claimArgsByAsrtId : List (String × List ClaimArg) := []
  metaRowsData : List MetaRow := []
  metaByAsrtId : List (String × List MetaRow) := []
  metaByKind : List (String × List MetaRow) := []
  metaByKey : List (MetaKey × List MetaRow) := []
  metaByAsrtIdKey : List ((String × MetaKey) × List MetaRow) := []
  metaByAsrtIdKeyKind : List ((String × MetaKey × String) × List MetaRow) := []
  metaIngestKeyAsrtIds : List (String × List String) := []
  annotationRowsData : List AnnotationRow := []
  annoByAsrtId : List (String × List AnnotationRow) := []
  annoByNsCat : List ((String × String) × List AnnotationRow) := []
  annoByKey : List (String × List AnnotationRow) := []
  annoByIdentity : List ((String × String × String × String) × AnnotationRow) := []
  revokesData : List Revokes := []
  revokerAsrtIds : Finset String := ∅
  revokedAsrtIds : Finset String := ∅
  firstRevokerByRevokedAsrtId : List (String × String) := []

namespace Indexes

/-! ## Claims -/

/-- The updates of `_idx_add_claim` before the claim's arguments are read. -/
def addClaim (claim : Claim) (m : Indexes) : Indexes :=
  { m with
    claims := m.claims ++ [claim]
    claimByAsrtId := Dict.set m.claimByAsrtId claim.asrtId claim
    claimsByPredId := Buckets.add m.claimsByPredId claim.predId claim
    claimsByERef := Buckets.add m.claimsByERef claim.eRef claim
    claimsByPredERef := Buckets.add m.claimsByPredERef (claim.predId, claim.eRef) claim }

/-- `_idx_add_claim_args` on one row. -/
def addClaimArg (m : Indexes) (row : ClaimArg) : Indexes :=
  { m with
    claimArgs := m.claimArgs ++ [row]
    claimArgsByAsrtId := Buckets.add m.claimArgsByAsrtId row.asrtId row }

/-- The rows `_idx_add_claim` makes of a claim's arguments. -/
def argRows (asrtId : String) (rows : List ArgRow) : List ClaimArg :=
  rows.map fun row => ⟨asrtId, row.idx, row.valAtom, row.tag⟩

/-- `_idx_add_claim_args`. -/
def addClaimArgs (asrtId : String) (rows : List ArgRow) (m : Indexes) : Indexes :=
  (argRows asrtId rows).foldl addClaimArg m

/-- `self._claim_tx_refs[asrt_id] = tx_ref`. -/
def setTxRef (asrtId : String) (txRef : Nat) (m : Indexes) : Indexes :=
  { m with claimTxRefs := Dict.set m.claimTxRefs asrtId txRef }

/-- `self._claim_op_ordinals[asrt_id] = op_ordinal`. -/
def setOpOrdinal (asrtId : String) (opOrdinal : Nat) (m : Indexes) : Indexes :=
  { m with claimOpOrdinals := Dict.set m.claimOpOrdinals asrtId opOrdinal }

def addSystemClaim (claim : Claim) (m : Indexes) : Indexes :=
  { m with systemClaimByAsrtId := Dict.set m.systemClaimByAsrtId claim.asrtId claim }

/-- `len(claim.rest_terms) == 1 and claim.rest_terms[0][0] == "string"`. -/
def hasRevocationShape : List Term → Bool
  | [("string", _)] => true
  | _ => false

/-- `_idx_add_system_revocation_claim`. -/
def idxAddSystemRevocationClaim (claim : Claim) (txRef : Option Nat) : Hook Indexes StoreErr :=
  if claim.predId ≠ revocationPredicate then
    .fail (.ledgerFormat s!"unsupported system claim predicate: {claim.predId}")
  else if !hasRevocationShape claim.restTerms then
    .fail (.ledgerFormat "__system__.revokes claim has invalid value shape")
  else
    .step fun m =>
      match txRef with
      | some tx => (m.addSystemClaim claim).setTxRef claim.asrtId tx
      | none => m.addSystemClaim claim

/-- `_idx_add_claim`; no caller hands it a `tx_ref`. -/
def idxAddClaim (claim : Claim) : Hook Indexes StoreErr :=
  if startsWith systemPrefix claim.predId then idxAddSystemRevocationClaim claim none
  else (Hook.step (addClaim claim)).andThen
    (.bind (claimArgsFromRestTerms claim.restTerms) fun rows =>
      .step (addClaimArgs claim.asrtId rows))

/-! ## Metadata -/

/-- The ingest key a metadata row carries, if it is one. -/
def ingestKey? (row : MetaRow) : Option String :=
  match row.key, row.kind, row.value with
  | .plain "ingest_key", "str", .leaf (.str s) => some s
  | _, _, _ => none

/-- `_idx_add_meta` on one row that is not lazy. -/
def addMetaRow (m : Indexes) (row : MetaRow) : Indexes :=
  { m with
    metaRowsData := m.metaRowsData ++ [row]
    metaByAsrtId := Buckets.add m.metaByAsrtId row.asrtId row
    metaByKind := Buckets.add m.metaByKind row.kind row
    metaByKey := Buckets.add m.metaByKey row.key row
    metaByAsrtIdKey := Buckets.add m.metaByAsrtIdKey (row.asrtId, row.key) row
    metaByAsrtIdKeyKind := Buckets.add m.metaByAsrtIdKeyKind (row.asrtId, row.key, row.kind) row
    metaIngestKeyAsrtIds :=
      match ingestKey? row with
      | some key => Buckets.add m.metaIngestKeyAsrtIds key row.asrtId
      | none => m.metaIngestKeyAsrtIds }

/-- `_idx_add_meta`. -/
def idxAddMeta (isLazy : String → Bool) (rows : List MetaRow) (m : Indexes) : Indexes :=
  (rows.filter fun row => !isLazy row.key.text).foldl addMetaRow m

/-- `_idx_add_claim_meta_event` on an event that is not lazy. -/
def addMetaEvent (m : Indexes) (e : MetaEvent) : Indexes :=
  { m with
    claimMetaEvents := m.claimMetaEvents ++ [e]
    claimMetaEventsByAsrtId := Buckets.add m.claimMetaEventsByAsrtId e.asrtId e
    claimMetaEventsByAsrtIdKey := Buckets.add m.claimMetaEventsByAsrtIdKey (e.asrtId, e.key) e }

/-- The event an appended row is. -/
def eventOf (txSeq opOrdinal : Nat) : MetaAppend → MetaEvent
  | .row r => ⟨r.asrtId, r.key, some (r.kind, r.value), txSeq, opOrdinal⟩
  | .unset t => ⟨t.asrtId, t.key, none, txSeq, opOrdinal⟩

/-- The rows among appended rows and tombstones. -/
def rowsOf (appends : List MetaAppend) : List MetaRow :=
  appends.filterMap fun | .row r => some r | .unset _ => none

/-- `_idx_add_claim_meta_events`. -/
def idxAddClaimMetaEvents (isLazy : String → Bool) (appends : List MetaAppend)
    (txSeq opOrdinal : Nat) (projectMeta : Bool) (m : Indexes) : Indexes :=
  let m := ((appends.map (eventOf txSeq opOrdinal)).filter fun e => !isLazy e.key.text).foldl
    addMetaEvent m
  if projectMeta then idxAddMeta isLazy (rowsOf appends) m else m

/-! ## Annotations -/

/-- `_idx_remove_annotation`; an empty bucket is as good as none. -/
def removeAnnotationRow (m : Indexes) (row : AnnotationRow) : Indexes :=
  { m with
    annotationRowsData := m.annotationRowsData.erase row
    annoByAsrtId := Buckets.drop m.annoByAsrtId row.asrtId row
    annoByNsCat := Buckets.drop m.annoByNsCat (row.ns, row.category) row
    annoByKey := Buckets.drop m.annoByKey row.key row
    annoByIdentity := Dict.remove m.annoByIdentity row.slot }

/-- `_idx_add_annotation` on one row that is not lazy. -/
def addAnnotationRow (m : Indexes) (row : AnnotationRow) : Indexes :=
  let m := match Dict.get? m.annoByIdentity row.slot with
    | some existing => m.removeAnnotationRow existing
    | none => m
  { m with
    annotationRowsData := m.annotationRowsData ++ [row]
    annoByAsrtId := Buckets.add m.annoByAsrtId row.asrtId row
    annoByNsCat := Buckets.add m.annoByNsCat (row.ns, row.category) row
    annoByKey := Buckets.add m.annoByKey row.key row
    annoByIdentity := Dict.set m.annoByIdentity row.slot row }

/-- `_idx_add_annotation`. -/
def idxAddAnnotations (isLazy : String → Bool) (rows : List AnnotationRow) (m : Indexes) : Indexes :=
  (rows.filter fun row => !isLazy row.key).foldl addAnnotationRow m

/-! ## Revocations -/

/-- `_idx_add_revoke`. -/
def idxAddRevoke (row : Revokes) (m : Indexes) : Indexes :=
  { m with
    revokesData := m.revokesData ++ [row]
    revokerAsrtIds := insert row.revokerAsrtId m.revokerAsrtIds
    revokedAsrtIds := insert row.revokedAsrtId m.revokedAsrtIds
    firstRevokerByRevokedAsrtId :=
      if Dict.has m.firstRevokerByRevokedAsrtId row.revokedAsrtId then m.firstRevokerByRevokedAsrtId
      else Dict.set m.firstRevokerByRevokedAsrtId row.revokedAsrtId row.revokerAsrtId }

end Indexes

end FactGraph.Store
