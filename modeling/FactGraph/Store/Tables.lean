import Mathlib.Data.Prod.Lex
import FactGraph.Lib.Check
import FactGraph.Store.Meta

/-!
# Rows of the ledger

The row types of `core/store/ledger.py`, what each write checks of them, and the two projections
the ledger computes from them: the annotation an initial metadata row stands for
(`core/protocol/annotation_v1.py`) and the metadata row an annotation is stored as.

An annotation with no such metadata row is stored under a key of its own, whose text spells the
annotation's identity in base 64. Only `_annotation_storage_key` writes such texts, so a key is
either plain text or the identity itself (`MetaKey`); `MetaKey.text` is what the column holds.
-/

namespace FactGraph.Store

open Protocol Check

/-! ## Keys -/

/-- What the storage key of an annotation spells. -/
structure StorageKey where
  category : String
  derivation : Option String
  key : String
  ns : String
  origin : String
  deriving DecidableEq, Repr

/-- The key of a metadata row: plain text, or the storage key of an annotation. -/
inductive MetaKey where
  | plain (text : String)
  | storage (id : StorageKey)
  deriving DecidableEq, Repr

/-- `_ANNOTATION_COMPAT_PREFIX`. -/
def annotationCompatPrefix : String := "__factgraph_annotation_v1__:"

def hex4 (n : Nat) : List Char := [hexDigit (n / 4096), hexDigit (n / 256), hexDigit (n / 16),
  hexDigit n]

/-- A character of a JSON string, with `ensure_ascii=True`. -/
def jsonAsciiChar (c : Char) : List Char :=
  if c = '"' then ['\\', '"'] else if c = '\\' then ['\\', '\\']
  else if c = '\n' then ['\\', 'n'] else if c = '\r' then ['\\', 'r']
  else if c = '\t' then ['\\', 't'] else if c.toNat = 12 then ['\\', 'f']
  else if c.toNat = 8 then ['\\', 'b']
  else if 32 ≤ c.toNat ∧ c.toNat ≤ 126 then [c]
  else if c.toNat < 0x10000 then '\\' :: 'u' :: hex4 c.toNat
  else '\\' :: 'u' :: hex4 (0xd800 + (c.toNat - 0x10000) / 0x400) ++
    '\\' :: 'u' :: hex4 (0xdc00 + (c.toNat - 0x10000) % 0x400)

def jsonAsciiString (s : String) : List Char := '"' :: s.toList.flatMap jsonAsciiChar ++ ['"']

/-- `json.dumps(identity, sort_keys=True, separators=(",", ":"))`. -/
def StorageKey.json (id : StorageKey) : String :=
  let field (name : String) (text : List Char) := jsonAsciiString name ++ ':' :: text
  let derivation := match id.derivation with
    | some d => jsonAsciiString d
    | none => "null".toList
  String.ofList ('{' :: field "category" (jsonAsciiString id.category) ++
    ',' :: field "derivation" derivation ++ ',' :: field "key" (jsonAsciiString id.key) ++
    ',' :: field "namespace" (jsonAsciiString id.ns) ++
    ',' :: field "origin" (jsonAsciiString id.origin) ++ ['}'])

/-- The text of a key. -/
def MetaKey.text : MetaKey → String
  | .plain text => text
  | .storage id => annotationCompatPrefix ++ urlsafeBase64 (utf8 id.json)

/-- `_is_reserved_annotation_meta_key` on a row of the public class. -/
def MetaKey.isForged : MetaKey → Bool
  | .plain text => startsWith annotationCompatPrefix text
  | .storage _ => false

/-! ## Rows -/

/-- `Claim`. -/
structure Claim where
  asrtId : String
  predId : String
  eRef : String
  restTerms : List Term
  deriving DecidableEq

/-- `ClaimArg`. -/
structure ClaimArg where
  asrtId : String
  idx : Nat
  valAtom : Rules.Value
  tag : String
  deriving DecidableEq

/-- `MetaRow`; with an annotation key it is the private `_AnnotationStorageMetaRow`. -/
structure MetaRow where
  asrtId : String
  key : MetaKey
  kind : String
  value : Datum
  deriving DecidableEq

/-- `_MetaTombstone`: an explicit UNSET. -/
structure MetaTombstone where
  asrtId : String
  key : MetaKey
  deriving DecidableEq

/-- An element of `meta_appends`. -/
inductive MetaAppend where
  | row (row : MetaRow)
  | unset (tombstone : MetaTombstone)
  deriving DecidableEq

def MetaAppend.asrtId : MetaAppend → String
  | .row r => r.asrtId
  | .unset t => t.asrtId

def MetaAppend.key : MetaAppend → MetaKey
  | .row r => r.key
  | .unset t => t.key

/-- `AnnotationRow`. -/
structure AnnotationRow where
  asrtId : String
  ns : String
  category : String
  key : String
  kind : String
  value : Datum
  origin : String
  derivation : Option String
  deriving DecidableEq

/-- `Revokes`. -/
structure Revokes where
  revokerAsrtId : String
  revokedAsrtId : String
  deriving DecidableEq

/-- `Idempotency.on_conflict`. -/
inductive OnConflict where
  | skip
  | error
  deriving DecidableEq

/-- `Idempotency`. -/
structure Idempotency where
  ingestKey : String
  onConflict : OnConflict

/-- `AppendResult`. -/
structure AppendResult where
  asrtId : String
  written : Bool
  deriving DecidableEq

/-- A position `(tx_seq, op_ordinal)` of the event order. -/
abbrev EventSeq := ℕ ×ₗ ℕ

/-- `_ClaimMetaEvent`; `cell` is the pair of kind and value, absent for an UNSET. -/
structure MetaEvent where
  asrtId : String
  key : MetaKey
  cell : Option (String × Datum)
  txSeq : Nat
  opOrdinal : Nat
  deriving DecidableEq

def MetaEvent.eventSeq (e : MetaEvent) : EventSeq := toLex (e.txSeq, e.opOrdinal)

def MetaEvent.isUnset (e : MetaEvent) : Bool := e.cell.isNone

/-- `TxMetaDefault`. -/
structure TxMetaDefault where
  txSeq : Nat
  key : String
  kind : String
  value : Datum
  deriving DecidableEq

/-- `_SYSTEM_PREFIX`. -/
def systemPrefix : String := "__system__."

/-- `_REVOCATION_PREDICATE`. -/
def revocationPredicate : String := "__system__.revokes"

/-- The claim a revocation is stored as. -/
def revokeClaim (revokes : Revokes) (target : Claim) : Claim where
  asrtId := revokes.revokerAsrtId
  predId := revocationPredicate
  eRef := target.eRef
  restTerms := [("string", .leaf (.str revokes.revokedAsrtId))]

/-! ## Checks -/

def validateClaimIdentity (asrtId predId eRef : String) : Except StoreErr Unit := do
  require (asrtId ≠ "") (.valueError "asrt_id must be non-empty")
  require (predId ≠ "") (.valueError "pred_id must be non-empty")
  require (eRef ≠ "") (.valueError "e_ref must be non-empty")

/-- `_validate_claim_input(claim, require_asrt_id=False)`. -/
def validateClaimInput (claim : Claim) : Except StoreErr Unit := do
  require (claim.predId ≠ "") (.valueError "pred_id must be non-empty")
  require (claim.eRef ≠ "") (.valueError "e_ref must be non-empty")
  require (!startsWith systemPrefix claim.predId) (.valueError
    ("general claim writes cannot use the reserved '__system__.' namespace; " ++
      "use the dedicated revocation path"))

/-- `_validate_claim_input(claim, require_asrt_id=True)`. -/
def validateIdentifiedClaim (claim : Claim) : Except StoreErr Unit := do
  require (claim.asrtId ≠ "") (.valueError "asrt_id must be non-empty")
  validateClaimInput claim

/-- `_validate_claim_args_rows`. -/
def validateClaimArgsRows (rows : List ClaimArg) : Except StoreErr Unit :=
  each (fun row => require (row.tag ≠ "") (.valueError "claim_arg tag must be non-empty str")) rows

/-- The checks `_validate_meta_rows` and its variant for `append_assertion` share. -/
def validateMetaRow (row : MetaRow) : Except StoreErr Unit := do
  require (row.kind ∈ metaKinds) (.valueError s!"unsupported meta kind: {row.kind}")
  require (row.key.text ≠ "") (.valueError "meta key must be non-empty str")
  require (!row.key.isForged) (.valueError
    ("meta key uses the reserved annotation storage namespace: " ++ annotationCompatPrefix))

/-- `_validate_meta_rows`. -/
def validateMetaRows (rows : List MetaRow) : Except StoreErr Unit :=
  each (fun row => do
    validateMetaRow row
    require (row.asrtId ≠ "") (.valueError "meta asrt_id must be non-empty str")) rows

/-- `_validate_meta_rows_for_append_assertion`: the assertion id is filled in later, and no row is
of the private class. -/
def validateMetaRowsForAppendAssertion (rows : List MetaRow) : Except StoreErr Unit :=
  each (fun row => do
    validateMetaRow row
    require (row.key = .plain row.key.text) (.valueError
      ("meta key uses the reserved annotation storage namespace: " ++ annotationCompatPrefix))) rows

/-- `_validate_meta_events`: first the rows, then the tombstones. -/
def validateMetaEvents (appends : List MetaAppend) : Except StoreErr Unit := do
  validateMetaRows (appends.filterMap fun | .row r => some r | .unset _ => none)
  each (fun
    | .row _ => .ok ()
    | .unset t => do
        require (t.asrtId ≠ "") (.valueError "UNSET asrt_id must be non-empty str")
        require (t.key.text ≠ "") (.valueError "UNSET key must be non-empty str")
        require (!startsWith annotationCompatPrefix t.key.text) (.valueError
          "UNSET cannot target the reserved annotation storage namespace")) appends

/-- `_reject_duplicate_meta_keys`. -/
def rejectDuplicateMetaKeys (context : String) (rows : List MetaRow) : Except StoreErr Unit :=
  let keys := rows.map (·.key.text)
  let duplicates := (keys.filter fun k => 1 < keys.count k).dedup.insertionSort (· ≤ ·)
  require duplicates.isEmpty (.valueError
    (s!"{context} keys must be unique; repeated key(s): " ++ ", ".intercalate duplicates))

def annotationCategories : List String := ["source", "semantic", "derived", "operational"]

def annotationOrigins : List String := ["observed", "derived"]

/-- `_validate_annotation_rows` on one row. -/
def validateAnnotationRow (row : AnnotationRow) : Except StoreErr Unit := do
  require (row.asrtId ≠ "") (.valueError "annotation asrt_id must be non-empty str")
  require (row.ns ≠ "") (.valueError "annotation namespace must be non-empty str")
  require (row.category ∈ annotationCategories)
    (.valueError s!"unsupported annotation category: {row.category}")
  require (row.key ≠ "") (.valueError "annotation key must be non-empty str")
  require (row.kind ∈ metaKinds) (.valueError s!"unsupported annotation kind: {row.kind}")
  require (row.origin ∈ annotationOrigins)
    (.valueError s!"unsupported annotation origin: {row.origin}")
  require (row.origin ≠ "derived" ∨ (row.derivation ≠ none ∧ row.derivation ≠ some ""))
    (.valueError "derivation must be non-empty when origin='derived'")

/-- `_validate_annotation_rows`. -/
def validateAnnotationRows (rows : List AnnotationRow) : Except StoreErr Unit :=
  each validateAnnotationRow rows

/-- `_validate_revokes_row`. -/
def validateRevokesRow (row : Revokes) : Except StoreErr Unit :=
  require (row.revokerAsrtId ≠ "" ∧ row.revokedAsrtId ≠ "")
    (.valueError "revoker_asrt_id and revoked_asrt_id must be non-empty")

/-- `_normalize_term` on every term: a term keeps its value, its tag may not be empty. -/
def normalizeTerms (terms : List Term) : Except StoreErr Unit :=
  each (fun t => require (t.1 ≠ "") (.valueError "rest_terms tag must be non-empty str")) terms

/-! ## Annotations -/

/-- `SHARED_ANNOTATION_KEYS`. -/
def sharedAnnotationKey? : String → Option (String × String)
  | "source" | "source_loc" | "trace_id" | "approved_by" | "note" => some ("source", "observed")
  | "raw_kind" | "bound" => some ("semantic", "observed")
  | _ => none

/-- `_initial_meta_annotation_row`. -/
def initialMetaAnnotationRow (row : MetaRow) : Option AnnotationRow :=
  (sharedAnnotationKey? row.key.text).map fun (category, origin) =>
    { asrtId := row.asrtId, ns := "shared", category, key := row.key.text, kind := row.kind,
      value := row.value, origin, derivation := none }

/-- `_initial_meta_annotation_rows`. -/
def initialMetaAnnotationRows (rows : List MetaRow) : List AnnotationRow :=
  rows.filterMap initialMetaAnnotationRow

/-- What `_merge_annotation_rows` and the live index key an annotation by. -/
def AnnotationRow.slot (row : AnnotationRow) : String × String × String × String :=
  (row.asrtId, row.ns, row.category, row.key)

/-- `_merge_annotation_rows`: a later row of a slot replaces an earlier one in its place. -/
def mergeAnnotationRows (contract explicit : List AnnotationRow) : List AnnotationRow :=
  ((contract ++ explicit).foldl (fun merged row => Dict.set merged row.slot row) []).map Prod.snd

/-- `_annotation_identity`. -/
def annotationIdentity (row : AnnotationRow) : Except StoreErr (AnnotationRow × StoredMeta) :=
  (encodeMetaValue row.kind row.value).map fun s => ({ row with value := .leaf .none }, s)

/-- `_AnnotationStorageMetaRow(row.asrt_id, _annotation_storage_key(row), row.kind, row.value)`. -/
def annotationStorageRow (row : AnnotationRow) : MetaRow where
  asrtId := row.asrtId
  key := .storage ⟨row.category, row.derivation, row.key, row.ns, row.origin⟩
  kind := row.kind
  value := row.value

/-- The rows whose identity none of the given identities is. -/
def withoutReproducible (reproducible : List (AnnotationRow × StoredMeta)) :
    List AnnotationRow → Except StoreErr (List MetaRow)
  | [] => .ok []
  | row :: rows => do
      let id ← annotationIdentity row
      let rest ← withoutReproducible reproducible rows
      .ok (if id ∈ reproducible then rest else annotationStorageRow row :: rest)

/-- `_annotation_compatibility_meta_rows`: the rows that the initial metadata does not already
stand for. -/
def annotationCompatibilityMetaRows (rows : List AnnotationRow) (skipMetaRows : List MetaRow) :
    Except StoreErr (List MetaRow) := do
  let reproducible ← mapOk annotationIdentity (initialMetaAnnotationRows skipMetaRows)
  withoutReproducible reproducible rows

/-- `_annotation_from_storage_key`. -/
def annotationFromStorageKey (asrtId : String) (key : MetaKey) (kind : String) (value : Datum) :
    Except StoreErr AnnotationRow :=
  let malformed : StoreErr := .ledgerFormat
    s!"malformed annotation compatibility storage key for asrt_id '{asrtId}'"
  match key with
  | .plain _ => .error malformed
  | .storage id =>
      let row : AnnotationRow :=
        { asrtId, ns := id.ns, category := id.category, key := id.key, kind, value,
          origin := id.origin, derivation := id.derivation }
      match validateAnnotationRow row with
      | .ok () => .ok row
      | .error _ => .error malformed

/-!
## The tables

The three SQLite tables behind a ledger (`_DDL` in `core/store/ledger.py`), with the constraints the
writes rely on: `claims.asrt_id` is unique and `seq` grows with every insertion, and no two rows of
`claim_meta` agree on assertion, key and position. A table is a structure that carries its
constraint, so a row that would break it cannot be inserted: the insertion raises.
-/

/-! ## Claims -/

/-- The value carrier of a claim: nothing, one canonical value, or the n-ary `rest_terms` text. -/
inductive StoredTerms where
  | none
  | value (tag : String) (text : Scalar)
  | nary (terms : List (String × Json))
  deriving DecidableEq

/-- A row of `claims`. -/
structure ClaimRow where
  seq : Nat
  asrtId : String
  predId : String
  eRef : String
  terms : StoredTerms
  txRef : Nat
  deriving DecidableEq

/-- `_encode_claim_value` on one term: the value its canonical text denotes. -/
def encodeClaimValue (term : Term) : Except StoreErr StoredTerms := do
  let atom ← valAtomForClaimArg term.1 term.2
  match term.1, atom with
  | "float64", _ => do
      let bits ← float64Bits term.2
      .ok (.value term.1 (.float ⟨bits⟩))
  | _, .str s => .ok (.value term.1 (.str s))
  | _, .int i => .ok (.value term.1 (.int i))
  | _, .bool b => .ok (.value term.1 (.bool b))
  | tag, _ => .error (.valueError s!"unsupported claim value tag: {tag}")

/-- The carrier `_insert_claim` writes: claims of two terms or more keep the n-ary text. -/
def encodeTerms : List Term → Except StoreErr StoredTerms
  | [] => .ok .none
  | [term] => encodeClaimValue term
  | terms => .ok (.nary (terms.map fun t => (t.1, toJsonable t.2)))

/-- The table `claims`, in the order of `seq`; `lastSeq` is its AUTOINCREMENT counter. -/
structure ClaimsTable where
  rows : List ClaimRow
  lastSeq : Nat
  unique : (rows.map (·.asrtId)).Nodup
  ascending : rows.Pairwise fun r s => r.seq < s.seq
  bounded : ∀ r ∈ rows, r.seq ≤ lastSeq

/-- The empty table. -/
def ClaimsTable.empty : ClaimsTable where
  rows := []
  lastSeq := 0
  unique := by simp
  ascending := .nil
  bounded := by simp

/-- `INSERT INTO claims`. -/
def ClaimsTable.insert (t : ClaimsTable) (claim : Claim) (terms : StoredTerms) (txRef : Nat) :
    Except StoreErr ClaimsTable :=
  if h : claim.asrtId ∈ t.rows.map (·.asrtId) then
    .error (.valueError s!"duplicate asrt_id: {claim.asrtId}")
  else .ok
    { rows := t.rows ++ [⟨t.lastSeq + 1, claim.asrtId, claim.predId, claim.eRef, terms, txRef⟩]
      lastSeq := t.lastSeq + 1
      unique := by
        rw [List.map_append]
        exact List.Nodup.append t.unique (by simp) (by simpa [List.disjoint_left] using h)
      ascending := by
        refine List.pairwise_append.mpr ⟨t.ascending, by simp, ?_⟩
        intro r hr s hs
        have hle : r.seq ≤ t.lastSeq := t.bounded r hr
        simp only [List.mem_singleton] at hs
        subst hs
        exact Nat.lt_succ_of_le hle
      bounded := by
        intro r hr
        rcases List.mem_append.mp hr with hr | hr
        · exact (t.bounded r hr).trans (Nat.le_succ _)
        · simp only [List.mem_singleton] at hr
          simp [hr] }

/-- `_insert_claim`. -/
def ClaimsTable.insertClaim (t : ClaimsTable) (claim : Claim) (txRef : Nat) :
    Except StoreErr ClaimsTable := do
  validateClaimIdentity claim.asrtId claim.predId claim.eRef
  normalizeTerms claim.restTerms
  let terms ← encodeTerms claim.restTerms
  t.insert claim terms txRef

/-- `SELECT seq FROM claims WHERE asrt_id = ?`. -/
def ClaimsTable.sequence? (t : ClaimsTable) (asrtId : String) : Option Nat :=
  (t.rows.find? fun r => r.asrtId = asrtId).map (·.seq)

/-! ## Metadata -/

/-- A row of `claim_meta`; an absent `cell` is the null pair of an UNSET. -/
structure ClaimMetaRow where
  asrtId : String
  key : MetaKey
  cell : Option StoredMeta
  txSeq : Nat
  opOrdinal : Nat
  deriving DecidableEq

/-- The primary key of `claim_meta`. -/
def ClaimMetaRow.primaryKey (r : ClaimMetaRow) : String × String × Nat × Nat :=
  (r.asrtId, r.key.text, r.txSeq, r.opOrdinal)

/-- The table `claim_meta`, in the order of `rowid`. -/
structure MetaTable where
  rows : List ClaimMetaRow
  primary : (rows.map (·.primaryKey)).Nodup

/-- The empty table. -/
def MetaTable.empty : MetaTable where
  rows := []
  primary := by simp

/-- `INSERT INTO claim_meta`. -/
def MetaTable.insert (t : MetaTable) (r : ClaimMetaRow) : Except StoreErr MetaTable :=
  if h : r.primaryKey ∈ t.rows.map (·.primaryKey) then
    .error (.integrityError ("UNIQUE constraint failed: claim_meta.asrt_id, claim_meta.key, " ++
      "claim_meta.tx_seq, claim_meta.op_ordinal"))
  else .ok
    { rows := t.rows ++ [r]
      primary := by
        rw [List.map_append]
        exact List.Nodup.append t.primary (by simp) (by simpa [List.disjoint_left] using h) }

/-- The row of `claim_meta` an appended event is written as. -/
def encodeAppend (asrtId : String) (txSeq opOrdinal : Nat) :
    MetaAppend → Except StoreErr ClaimMetaRow
  | .row r => (encodeMetaValue r.kind r.value).map fun s => ⟨asrtId, r.key, some s, txSeq, opOrdinal⟩
  | .unset t => .ok ⟨asrtId, t.key, none, txSeq, opOrdinal⟩

/-- `_insert_meta_rows`: every row is encoded before the first is inserted. -/
def MetaTable.insertMetaRows (t : MetaTable) (asrtId : String) (txSeq opOrdinal : Nat)
    (appends : List MetaAppend) : Except StoreErr MetaTable := do
  let rows ← mapOk (encodeAppend asrtId txSeq opOrdinal) appends
  rows.foldlM (fun t r => t.insert r) t

/-! ## All tables -/

/-- A ledger's database. -/
structure Tables where
  claims : ClaimsTable
  claimMeta : MetaTable
  ledgerMeta : List (String × String)

/-- `_init_schema` on an empty file. -/
def Tables.empty : Tables where
  claims := .empty
  claimMeta := .empty
  ledgerMeta := [("ledger_format_version", "slice3b-v1")]

/-- `_next_direct_tx_seq`: one more than every sequence number in use. -/
def Tables.nextDirectTxSeq (t : Tables) : Nat :=
  match (t.claims.rows.map (·.txRef) ++ t.claimMeta.rows.map (·.txSeq)).max? with
  | none => 0
  | some m => m + 1

/-- `_insert_claim` on the database. -/
def Tables.insertClaim (t : Tables) (claim : Claim) (txRef : Nat) : Except StoreErr Tables := do
  let claims ← t.claims.insertClaim claim txRef
  .ok { t with claims }

/-- `_insert_meta_rows` on the database. -/
def Tables.insertMetaRows (t : Tables) (asrtId : String) (txSeq opOrdinal : Nat)
    (appends : List MetaAppend) : Except StoreErr Tables := do
  let claimMeta ← t.claimMeta.insertMetaRows asrtId txSeq opOrdinal appends
  .ok { t with claimMeta }

/-- `_insert_annotation_rows`: the compatibility rows, one statement each. -/
def Tables.insertAnnotationRows (t : Tables) (rows : List AnnotationRow) (txSeq opOrdinal : Nat)
    (skipMetaRows : List MetaRow) : Except StoreErr Tables := do
  let compatibility ← annotationCompatibilityMetaRows rows skipMetaRows
  compatibility.foldlM (fun t r => t.insertMetaRows r.asrtId txSeq opOrdinal [.row r]) t

end FactGraph.Store
