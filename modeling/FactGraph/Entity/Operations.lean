import FactGraph.Entity.Schema

/-!
# Planned operations

`application/entity_write.py` and `application/retract_guard.py`: how a planned operation is applied
to a store, one at a time (`applyOp`), and how a list of them is committed to a database in one
transaction (`commitPlannedOps`).

A store is its ledger here. A database is handed over together with the store on its own ledger;
the check that they share it is left out. The ids and times the host hands out are an argument: the
operation at a position takes those of that position.
-/

namespace FactGraph.Entity

open Protocol Store Check Evidence

/-! ## Operations -/

/-- `PlannedOpDTO`. The field of an operation is one of the type of its target. -/
inductive PlannedOp where
  | recordExists (target : EntityRef) (metaData : MetaDict)
  | set (target : EntityRef) (fieldName : String) (value : FieldValue) (metaData : MetaDict)
  | add (target : EntityRef) (fieldName : String) (value : FieldValue) (metaData : MetaDict)
  | retract (target : EntityRef) (fieldName assertionId : String) (metaData : MetaDict)

/-- The ids and times the host hands out. -/
structure Supply where
  ids : Nat → String
  times : Nat → Int64

/-- `dict(op.meta) if op.meta else None`. -/
def metaArg (m : MetaDict) : Option MetaDict := if m.entries.isEmpty then none else some m

/-! ## Values -/

def valueMismatch {α : Type} (fieldName what : String) (path : List String) : Except Fault α :=
  writeError "FIELD_VALUE_TYPE_MISMATCH" s!"{fieldName} expects {what} value" path

/-- `_normalize_scalar_value`. -/
def normalizeScalarValue (host : Host) (domain : Option String) (value : FieldValue)
    (fieldName : String) (path : List String) : Except Fault Datum :=
  match domain, value with
  | some "string", .scalar (.leaf (.str s)) => .ok (.leaf (.str s))
  | some "string", _ => valueMismatch fieldName "string" path
  | some "int", .scalar (.leaf (.int i)) => .ok (.leaf (.int i))
  | some "int", _ => valueMismatch fieldName "int" path
  | some "bool", .scalar (.leaf (.bool b)) => .ok (.leaf (.bool b))
  | some "bool", _ => valueMismatch fieldName "bool" path
  | some "float64", .scalar (.leaf (.float x)) => .ok (.leaf (.float x))
  | some "float64", .scalar (.leaf (.str s)) => .ok (.leaf (.str s))
  | some "float64", _ => valueMismatch fieldName "float64" path
  | some "time", .scalar (.leaf (.int i)) => .ok (.leaf (.int i))
  | some "time", _ => valueMismatch fieldName "epoch-nanos int" path
  | some "uuid", .scalar (.leaf (.str s)) =>
      if s ≠ "" then .ok (.leaf (.str (lower s))) else valueMismatch fieldName "uuid string" path
  | some "uuid", _ => valueMismatch fieldName "uuid string" path
  | some "bytes", .scalar (.leaf (.bytes raw)) => .ok (.leaf (.bytes raw))
  | some "bytes", _ => valueMismatch fieldName "bytes" path
  | domain, _ => writeError "UNSUPPORTED_FIELD_DOMAIN"
      (s!"{fieldName} uses unsupported field domain: " ++ (domain.map host.reprText).getD "None") path

/-- `_rest_term_for_value`. -/
def restTermForValue (host : Host) (index : SchemaIndex) (value : FieldValue) (type : FieldType)
    (entityType fieldName : String) : Except Fault Term :=
  let path := ["planned_ops", entityType, fieldName, "value"]
  match type, value with
  | .entityRef, .ref ref => (encodedRef host index ref).map fun encoded =>
      ("entity_ref", .leaf (.str encoded))
  | .entityRef, _ => writeError "INVALID_PLANNED_VALUE" "entity_ref planned value must be EntityRef"
      path
  | .scalar domain, value =>
      let text := domain.getD "None"
      (normalizeScalarValue host (some text) value s!"{entityType}.{fieldName}" path).map
        fun datum => (text, datum)

/-! ## What an operation writes -/

/-- What an operation that is no retraction writes. -/
def assertionWrite (host : Host) (index : SchemaIndex) (target : EntityRef)
    (field : Option (String × FieldValue)) (m : MetaDict) : Except Fault FieldWrite := do
  let eRef ← encodedRef host index target
  match field with
  | none => do
      let info ← entityInfo index target.entityType
      .ok { predId := info.existsPredicateId, eRef, restTerms := [], metaData := metaArg m }
  | some (fieldName, value) => do
      let pred ← fieldPredicate index target.entityType fieldName
      validateFieldValue host value pred
      let term ← restTermForValue host index value (fieldValueType pred) target.entityType fieldName
      .ok { predId := pred.predId, eRef, restTerms := [term], metaData := metaArg m }

/-- The write of an operation; a retraction has none. -/
def PlannedOp.write? (host : Host) (index : SchemaIndex) :
    PlannedOp → Option (Except Fault FieldWrite)
  | .recordExists target m => some (assertionWrite host index target none m)
  | .set target fieldName value m | .add target fieldName value m =>
      some (assertionWrite host index target (some (fieldName, value)) m)
  | .retract _ _ _ _ => none

/-! ## The retract guard -/

/-- `check_retract_allowed`, as `_check_generic_retract_allowed` reports it. -/
def checkRetractAllowed (index : SchemaIndex) (l : Ledger) (asrtId : String) : Except Fault Unit :=
  match l.getClaimIncludingSystem asrtId with
  | none => .ok ()
  | some claim =>
      let path := ["planned_ops", "assertion_id"]
      if startsWith systemPrefix claim.predId then
        writeError "INV_12_SYSTEM_REVOKE_FORBIDDEN"
          (s!"System Claim {asrtId} (pred_id={claim.predId}) cannot be retracted; " ++
            "revoke-of-revoke is forbidden by INV-12 part 2. See ADR-SYS-B §4.1.5.") path
      else if claim.predId ∈ index.identityPredIds then
        writeError "INV_7C_IDENTITY_PROTECTED"
          (s!"Identity Claim {asrtId} (pred_id={claim.predId}) is immutable per INV-7c; " ++
            "Identity bundle modification requires delete + recreate of the entity. " ++
            "See ADR-IC §4.1.") path
      else if claim.predId ∈ index.existsPredIds then
        writeError "EXISTENCE_CLAIM_TRANSITIONAL_GUARD"
          (s!"<EntityType>:exists Claim {asrtId} (pred_id={claim.predId}) cannot be retracted " ++
            "independently; :exists is co-emitted atomically with Identity Claims " ++
            "(existence-claim transitional guard). See ADR-IC §4.4.") path
      else .ok ()

/-! ## One operation at a time -/

/-- An error of the write protocol is one of the layer. -/
def liftRun {α : Type} (r : Ledger × Except StoreErr α) : Ledger × Except Fault α := (r.1, lift r.2)

/-- `_apply_op`. -/
def applyOp (host : Host) (index : SchemaIndex) (l : Ledger) (op : PlannedOp) (asrtId : String)
    (now : Int64) : Ledger × Except Fault String :=
  match op with
  | .retract target _ assertionId m =>
      match encodedRef host index target with
      | .error e => (l, .error e)
      | .ok _ =>
          match checkRetractAllowed index l assertionId with
          | .error e => (l, .error e)
          | .ok () => liftRun (retractByAsrt l assertionId (metaArg m) asrtId now)
  | .add target fieldName value m =>
      match assertionWrite host index target (some (fieldName, value)) m with
      | .error e => (l, .error e)
      | .ok w => liftRun (addField host.db.sha256 l w asrtId now)
  | .set target fieldName value m =>
      match assertionWrite host index target (some (fieldName, value)) m with
      | .error e => (l, .error e)
      | .ok w => liftRun (setField host.db.sha256 l w asrtId now)
  | .recordExists target m =>
      match assertionWrite host index target none m with
      | .error e => (l, .error e)
      | .ok w => liftRun (setField host.db.sha256 l w asrtId now)

/-! ## Translating -/

/-- What `planned_ops_to_inputs` makes of one operation. The source returns two lists, and takes the
operations along with them. -/
inductive Input where
  | assertion (input : Db.AssertionInput) (ingestKey : String)
  | revocation (input : Db.RevocationInput)

/-- `_user_meta_entries`. -/
def userMetaEntries (m : MetaDict) : Except StoreErr (List Db.MetaEntry) :=
  mapOk (fun p => (inferMetaKind p.1 p.2).map fun kind => ⟨p.1, kind, p.2⟩) m.sorted

/-- `_assertion_meta_entries`, with the ingest key. -/
def assertionMetaEntries (host : Host) (w : FieldWrite) (now : Int64) :
    Except StoreErr (List Db.MetaEntry × String) := do
  let m ← normalizeMeta w.metaData
  let ingestKey ← computeIngestKey host.db.sha256 w.predId w.eRef w.restTerms m
  let entries ← userMetaEntries m
  .ok (⟨"ingested_at", "time", .leaf (.int now.toInt)⟩ ::
    ⟨"ingest_key", "str", .leaf (.str ingestKey)⟩ :: entries, ingestKey)

/-- `_revocation_meta_entries`. -/
def revocationMetaEntries (revokedAsrtId : String) (m : Option MetaDict) (now : Int64) :
    Except StoreErr (List Db.MetaEntry) := do
  let m ← normalizeMeta m
  let entries ← userMetaEntries m
  .ok (⟨"ingested_at", "time", .leaf (.int now.toInt)⟩ ::
    ⟨"revoked_asrt_id", "str", .leaf (.str revokedAsrtId)⟩ :: entries)

/-- One turn of `planned_ops_to_inputs`. -/
def toInput (host : Host) (index : SchemaIndex) (op : PlannedOp) (now : Int64) : Except Fault Input :=
  match op with
  | .retract target _ assertionId m => do
      let _ ← encodedRef host index target
      let entries ← lift (revocationMetaEntries assertionId (metaArg m) now)
      .ok (.revocation ⟨assertionId, entries⟩)
  | .recordExists target m => do
      let w ← assertionWrite host index target none m
      let (entries, ingestKey) ← lift (assertionMetaEntries host w now)
      .ok (.assertion ⟨w.predId, ("entity_ref", .leaf (.str w.eRef)) :: w.restTerms, entries⟩ ingestKey)
  | .set target fieldName value m | .add target fieldName value m => do
      let w ← assertionWrite host index target (some (fieldName, value)) m
      let (entries, ingestKey) ← lift (assertionMetaEntries host w now)
      .ok (.assertion ⟨w.predId, ("entity_ref", .leaf (.str w.eRef)) :: w.restTerms, entries⟩ ingestKey)

/-- `planned_ops_to_inputs`. -/
def plannedOpsToInputs (host : Host) (index : SchemaIndex) (supply : Supply)
    (ops : List PlannedOp) : Except Fault (List (PlannedOp × Input)) :=
  mapOk (fun p => (toInput host index p.1 (supply.times p.2)).map fun input => (p.1, input))
    ops.zipIdx

/-! ## All operations in one transaction -/

/-- What the result of an operation is taken from. -/
inductive Resolution where
  | existing (asrtId : String)
  | assertion (kept : Nat)
  | revocation (kept : Nat)

/-- The variables of the loop of `_commit_planned_ops_to_database`. -/
structure Kept where
  assertions : List Db.AssertionInput := []
  byIngestKey : List (String × Nat) := []
  revocations : List Db.RevocationInput := []
  byTarget : List (String × Nat) := []
  resolutions : List Resolution := []

/-- `_find_active_assertion_by_ingest_key`. -/
def findActiveAssertionByIngestKey (l : Ledger) (ingestKey : String) : Option String :=
  (Buckets.get l.indexes.metaIngestKeyAsrtIds ingestKey).find? fun a =>
    Dict.has l.indexes.claimByAsrtId a && !l.hasActiveRevocation a

/-- The targets of the retractions of a list. -/
def revocationTargets (ops : List PlannedOp) : List String :=
  ops.filterMap fun
    | .retract _ _ assertionId _ => some assertionId
    | _ => none

namespace Kept

def resolve (k : Kept) (r : Resolution) : Kept := { k with resolutions := k.resolutions ++ [r] }

/-- An assertion is kept. -/
def keepAssertion (k : Kept) (input : Db.AssertionInput) : Kept :=
  { k with assertions := k.assertions ++ [input] }.resolve (.assertion k.assertions.length)

/-- A revocation is kept. -/
def keepRevocation (k : Kept) (input : Db.RevocationInput) : Kept :=
  { k with
    revocations := k.revocations ++ [input]
    byTarget := Dict.set k.byTarget input.revokedAsrtId k.revocations.length }.resolve
      (.revocation k.revocations.length)

/-- The turn of an operation that is neither a retraction nor an `add`. -/
def set (l : Ledger) (targets : List String) (k : Kept) (input : Db.AssertionInput)
    (ingestKey : String) : Kept :=
  match (findActiveAssertionByIngestKey l ingestKey).filter (· ∉ targets) with
  | some existing => k.resolve (.existing existing)
  | none =>
      match Dict.get? k.byIngestKey ingestKey with
      | some kept => k.resolve (.assertion kept)
      | none =>
          { k with byIngestKey := Dict.set k.byIngestKey ingestKey k.assertions.length }.keepAssertion
            input

/-- The turn of a retraction. -/
def retract (index : SchemaIndex) (l : Ledger) (enforceRetractGuard : Bool) (k : Kept)
    (input : Db.RevocationInput) : Except Fault Kept :=
  match l.findRevoker input.revokedAsrtId with
  | some existing => .ok (k.resolve (.existing existing))
  | none =>
      match Dict.get? k.byTarget input.revokedAsrtId with
      | some kept => .ok (k.resolve (.revocation kept))
      | none => do
          if enforceRetractGuard then checkRetractAllowed index l input.revokedAsrtId else .ok ()
          .ok (k.keepRevocation input)

/-- One turn of the loop. -/
def turn (index : SchemaIndex) (l : Ledger) (enforceRetractGuard : Bool) (targets : List String)
    (k : Kept) (p : PlannedOp × Input) : Except Fault Kept :=
  match p with
  | (_, .revocation input) => k.retract index l enforceRetractGuard input
  | (.add _ _ _ _, .assertion input _) => .ok (k.keepAssertion input)
  | (_, .assertion input ingestKey) => .ok (k.set l targets input ingestKey)

/-- The id of the result of an operation. -/
def resultId (result : Db.CommitResult) : Resolution → String
  | .existing asrtId => asrtId
  | .assertion kept => ((result.assertions[kept]?).map (·.asrtId)).getD ""
  | .revocation kept => ((result.revocations[kept]?).map (·.revokerAsrtId)).getD ""

/-- The ids of the results where nothing is written. -/
def existingIds (k : Kept) : List String :=
  k.resolutions.map fun
    | .existing asrtId => asrtId
    | .assertion _ | .revocation _ => ""

end Kept

/-- The part of `_commit_planned_ops_to_database` before the commit. -/
def keepOps (host : Host) (index : SchemaIndex) (l : Ledger) (supply : Supply)
    (enforceRetractGuard : Bool) (ops : List PlannedOp) : Except Fault Kept := do
  let inputs ← plannedOpsToInputs host index supply ops
  inputs.foldlM (Kept.turn index l enforceRetractGuard (revocationTargets ops)) {}

/-- `_commit_planned_ops_to_database`; it returns the id of every operation. -/
def commitPlannedOps (host : Host) (index : SchemaIndex) (d : Db.Database) (supply : Supply)
    (enforceRetractGuard : Bool) (ops : List PlannedOp) :
    Db.Database × Except Fault (List String) :=
  match keepOps host index d.ledger supply enforceRetractGuard ops with
  | .error e => (d, .error e)
  | .ok k =>
      if k.assertions.isEmpty && k.revocations.isEmpty then (d, .ok k.existingIds)
      else
        match d.commitChanges host.db k.assertions k.revocations supply.ids with
        | (d, .error e) => (d, .error (.other e))
        | (d, .ok result) => (d, .ok (k.resolutions.map (Kept.resultId result)))

/-! ## Plans -/

/-- `AppliedOpResultDTO`; a failed operation has no id. -/
structure AppliedOp where
  opIndex : Nat
  assertionId : Option String
  deriving DecidableEq

/-- `EntityWriteResult`; it is that of a plan that was applied if there is no error. -/
structure WriteResult where
  applied : List AppliedOp
  errors : List ErrorDto

/-- The loop of `apply_write_plan`, from an index on. -/
def applyOps (host : Host) (index : SchemaIndex) (l : Ledger) (supply : Supply) (opIndex : Nat) :
    List PlannedOp → Ledger × WriteResult
  | [] => (l, ⟨[], []⟩)
  | op :: rest =>
      match applyOp host index l op (supply.ids opIndex) (supply.times opIndex) with
      | (l, .error e) => (l, ⟨[⟨opIndex, none⟩], [toErrorDto e]⟩)
      | (l, .ok asrtId) =>
          let r := applyOps host index l supply (opIndex + 1) rest
          (r.1, ⟨⟨opIndex, some asrtId⟩ :: r.2.applied, r.2.errors⟩)

end FactGraph.Entity
