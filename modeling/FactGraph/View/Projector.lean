import Mathlib.Data.List.MinMax
import FactGraph.Store.Ledger

/-!
# Policies over a ledger

`core/policy/active.py` and `core/policy/chosen.py`: which claims are active, and which active claim
of a single-valued predicate is the chosen one of its group.

The policies and the projector call four methods of a `Ledger`. A filtered view is a subclass that
overrides them, so they are taken here as a record of methods (`LedgerReads`); `Ledger.reads` is the
record of a plain ledger, where none of the four raises but `claim_sequence` on the empty id.
-/

namespace FactGraph.View

open Protocol Store Check

/-! ## What is read -/

/-- The methods of a ledger that the policies and the projector call. -/
structure LedgerReads where
  findClaims : String → Except StoreErr (List Claim)
  hasActiveRevocation : String → Except StoreErr Bool
  claimSequence : String → Except StoreErr (Option Nat)
  findClaimArgs : String → Except StoreErr (List ClaimArg)

/-- The methods of a plain ledger. -/
def reads (l : Ledger) : LedgerReads where
  findClaims predId := .ok (l.findClaims (some predId) none)
  hasActiveRevocation asrtId := .ok (l.hasActiveRevocation asrtId)
  claimSequence := l.claimSequence
  findClaimArgs asrtId := .ok (l.findClaimArgs asrtId)

/-- A predicate of a schema document. A field that is missing or has another type than the code asks
for is absent; `cardinality` is `"single"` by default. -/
structure SchemaPred where
  predId : Option String
  cardinality : String := "single"
  isEntityExists : Bool := false
  isIdentityField : Bool := false
  ownerType : Option String := none
  pyFieldName : Option String := none
  groupKeyIndexes : Option (List (Option Int)) := none
  deriving DecidableEq

/-! ## `is_active` -/

def isActive (r : LedgerReads) (asrtId : String) : Except StoreErr Bool :=
  if asrtId = "" then .error (.valueError "asrt_id must be non-empty string")
  else (r.hasActiveRevocation asrtId).map (!·)

/-- `[claim for claim in ledger.find_claims(pred_id=pred_id) if is_active(ledger, claim.asrt_id)]`. -/
def activeClaims (r : LedgerReads) (predId : String) : Except StoreErr (List Claim) := do
  let claims ← r.findClaims predId
  filterOk (fun c => isActive r c.asrtId) claims

/-! ## Group keys -/

/-- `_read_group_key_indexes`, from the index after `last` on. -/
def readGroupKeyIndexes (argCount : Nat) (last : Int) :
    List (Option Int) → Except StoreErr (List Nat)
  | [] => .ok []
  | none :: _ => .error (.policyNonDeterminism "group_key_indexes values must be int")
  | some idx :: rest => do
      require (0 ≤ idx ∧ idx < argCount)
        (.policyNonDeterminism "group_key_indexes contains out-of-range value")
      require (last < idx) (.policyNonDeterminism "group_key_indexes must be strictly ascending")
      let more ← readGroupKeyIndexes argCount idx rest
      .ok (idx.toNat :: more)

/-- `sorted(rows, key=lambda row: row.idx)`. -/
def sortArgs (rows : List ClaimArg) : List ClaimArg := rows.insertionSort fun a b => a.idx ≤ b.idx

/-- `_val_atoms_for_claim`. -/
def valAtomsForClaim (r : LedgerReads) (claim : Claim) : Except StoreErr (List Rules.Value) := do
  let rows ← r.findClaimArgs claim.asrtId
  if rows.isEmpty then do
    let fallback ← claimArgsFromRestTerms claim.restTerms
    .ok (fallback.map (·.valAtom))
  else do
    let sorted := sortArgs rows
    require (sorted.length = claim.restTerms.length)
      (.policyNonDeterminism s!"asrt_id={claim.asrtId} claim_arg count mismatch")
    require (sorted.map (·.idx) = List.range sorted.length)
      (.policyNonDeterminism s!"asrt_id={claim.asrtId} claim_arg idx must be contiguous")
    .ok (sorted.map (·.valAtom))

/-- A group key. Python compares the parts with `==`, so each is kept in canonical form. -/
abbrev GroupKey := String × String × List Rules.Value

/-- `group_key_for_claim`. -/
def groupKeyForClaim (r : LedgerReads) (pred : SchemaPred) (claim : Claim) :
    Except StoreErr GroupKey := do
  let atoms ← valAtomsForClaim r claim
  let args := Rules.Value.str claim.eRef :: atoms
  match pred.groupKeyIndexes with
  | none => .error (.policyNonDeterminism "group_key_indexes must be a list")
  | some indexes => do
      let indexes ← readGroupKeyIndexes args.length (-1) indexes
      let terms := (indexes.filter (· ≠ 0)).map fun i => (args.getD i .none).canon
      .ok (claim.predId, claim.eRef, terms)

/-! ## The chosen claim of a group -/

/-- A candidate of `choose_one`, with its insertion sequence. -/
def candidate (r : LedgerReads) (asrtId : String) : Except StoreErr (String × Nat) := do
  let sequence ← r.claimSequence asrtId
  match sequence with
  | none => .error (.policyNonDeterminism s!"unknown asrt_id: {asrtId}")
  | some n => .ok (asrtId, n)

/-- `choose_one`: the id of the greatest insertion sequence. -/
def chooseOne (r : LedgerReads) (asrtIds : List String) : Except StoreErr String := do
  let candidates ← mapOk (candidate r) asrtIds
  match candidates.argmax (·.2) with
  | none => .error (.policyNonDeterminism "choose_one requires at least one asrt_id")
  | some c => .ok c.1

/-- The dictionary of groups `compute_chosen_for_predicate` fills. -/
def groupsOf (keyed : List (GroupKey × String)) : List (GroupKey × List String) :=
  Buckets.ofList Prod.fst Prod.snd keyed

/-- `compute_chosen_for_predicate`, as the list of the chosen ids. Of a multi-valued predicate every
active claim is chosen. -/
def computeChosenForPredicate (r : LedgerReads) (pred : SchemaPred) :
    Except StoreErr (List String) :=
  match pred.predId with
  | none => .error (.policyNonDeterminism "schema_pred.pred_id must be non-empty string")
  | some predId => do
      require (predId ≠ "")
        (.policyNonDeterminism "schema_pred.pred_id must be non-empty string")
      let claims ← activeClaims r predId
      if pred.cardinality = "multi" then do
        let _ ← mapOk (groupKeyForClaim r pred) claims
        .ok (claims.map (·.asrtId))
      else do
        require (pred.cardinality = "single")
          (.policyNonDeterminism s!"unsupported cardinality: {pred.cardinality}")
        let keyed ← mapOk (fun c => (groupKeyForClaim r pred c).map fun k => (k, c.asrtId)) claims
        mapOk (fun g => chooseOne r g.2) (groupsOf keyed)

/-!
## The projector

`core/view/projector.py`: the facts of every predicate of a schema, read off a ledger. An ordinary
predicate has the rows of its selected claims; the existence predicate of an entity type has a row
for every entity whose identity claims spell its own reference (`core/protocol/idref_v1.py`).

`projectViewFacts` and `projectViewFactsWithWitness` are two bodies in the source, and here. The
audit counters of the first are left out.
-/

/-- The two library functions the projector calls: `str` on a cell, and the SHA-256 digest. -/
structure Host where
  str : Rules.Value → String
  sha256 : List UInt8 → List UInt8

/-! ## The schema -/

/-- An identity field of an entity; a field of another type than the code asks for is absent. -/
structure IdentityField where
  name : Option String
  typeDomain : Option String
  deriving DecidableEq

structure SchemaEntity where
  entityType : Option String
  identityFields : Option (List (Option IdentityField))
  deriving DecidableEq

/-- A schema document. An element that is not an object is absent. -/
structure SchemaIr where
  predicates : Option (List (Option SchemaPred))
  entities : Option (List (Option SchemaEntity)) := some []
  deriving DecidableEq

/-! ## References -/

/-- `ENTITY_TYPE_RE.fullmatch`. -/
def isEntityType (s : String) : Bool :=
  match s.toList with
  | [] => false
  | c :: cs =>
      (c.toNat < 128 && c.isAlpha) && (cs.length ≤ 127 && cs.all fun c =>
        (c.toNat < 128 && c.isAlphanum) || c == '_' || c == '.' || c == '-')

/-- `b32_nopad_lower`: five bits a character, the last group filled up with zeros. -/
def b32NopadLower (raw : List UInt8) : String :=
  let bits := raw.flatMap fun b => (List.range 8).map fun i => b.toNat / 2 ^ (7 - i) % 2
  let digits := (List.range ((bits.length + 4) / 5)).map fun i =>
    (List.range 5).foldl (fun acc j => acc * 2 + bits.getD (5 * i + j) 0) 0
  String.ofList (digits.map fun d => "abcdefghijklmnopqrstuvwxyz234567".toList.getD d 'a')

/-- A cell, handed to an encoder. -/
def datumOf : Rules.Value → Datum
  | .none => .leaf .none
  | .bool b => .leaf (.bool b)
  | .int i => .leaf (.int i)
  | .float _ => .leaf .none
  | .str s => .leaf (.str s)
  | .bytes b => .leaf (.bytes b)

/-- One field of `canonical_bytes_idref_v1`. -/
def idrefFieldBytes (field : String × String × Datum) : Except StoreErr (List UInt8) := do
  let (name, domain, value) := field
  require (name ≠ "") (.valueError "field_name must be non-empty str")
  match tagCode? domain with
  | none => .error (.valueError s!"unknown type_domain: {domain}")
  | some code => do
      let payload ← encodeValueBytes domain value
      let nameLength ← u32be (utf8 name).length
      let length ← u32be payload.length
      .ok (nameLength ++ utf8 name ++ code :: length ++ payload)

/-- `encode_idref_v1`. -/
def encodeIdrefV1 (host : Host) (entityType : String) (fields : List (String × String × Datum)) :
    Except StoreErr String := do
  require (isEntityType entityType)
    (.valueError "entity_type must match [A-Za-z][A-Za-z0-9_.-]{0,127}")
  let typeLength ← u32be (utf8 entityType).length
  let count ← u32be fields.length
  let body ← mapOk idrefFieldBytes fields
  let canonical := utf8 "factpy\x00idref_v1\x00" ++ typeLength ++ utf8 entityType ++ count ++
    body.flatten
  .ok s!"idref_v1:{entityType}:{b32NopadLower (host.sha256 canonical)}"

/-! ## Selecting and reading claims -/

/-- A row of a view. -/
abbrev Fact := Rules.Fact

/-- `build_args_for_claim`. -/
def buildArgsForClaim (r : LedgerReads) (claim : Claim) : Except StoreErr Fact := do
  let rows ← r.findClaimArgs claim.asrtId
  if rows.isEmpty then do
    require claim.restTerms.isEmpty
      (.viewProjection s!"missing claim_arg rows for asrt_id={claim.asrtId}")
    .ok [.str claim.eRef]
  else do
    let sorted := sortArgs rows
    require (sorted.length = claim.restTerms.length)
      (.viewProjection s!"claim_arg count mismatch for asrt_id={claim.asrtId}")
    require (sorted.map (·.idx) = List.range sorted.length)
      (.viewProjection s!"claim_arg idx must be contiguous for asrt_id={claim.asrtId}")
    .ok (.str claim.eRef :: sorted.map (·.valAtom))

/-- `except PolicyNonDeterminismError as exc: raise ViewProjectionError(str(exc))`. -/
def adaptPolicy {α : Type} : Except StoreErr α → Except StoreErr α
  | .error (.policyNonDeterminism msg) => .error (.viewProjection msg)
  | r => r

/-- `predicate pred_id must be non-empty string`. -/
def requirePredId (pred : SchemaPred) : Except StoreErr String :=
  match pred.predId with
  | some p => do
      require (p ≠ "") (.viewProjection "predicate pred_id must be non-empty string")
      .ok p
  | none => .error (.viewProjection "predicate pred_id must be non-empty string")

/-- The selection both projections make of the active claims of a predicate. -/
def selectActive (r : LedgerReads) (pred : SchemaPred) (predId : String) :
    Except StoreErr (List Claim) := do
  let active ← activeClaims r predId
  if pred.cardinality = "single" then do
    let chosen ← adaptPolicy (computeChosenForPredicate r pred)
    .ok (active.filter fun c => c.asrtId ∈ chosen)
  else do
    require (pred.cardinality = "multi")
      (.viewProjection s!"unsupported cardinality: {pred.cardinality}")
    .ok active

/-- `_select_view_claims`. -/
def selectViewClaims (r : LedgerReads) (pred : SchemaPred) : Except StoreErr (List Claim) := do
  let predId ← requirePredId pred
  selectActive r pred predId

/-! ## Entity existence -/

/-- `schema_ir.predicates must be list` of objects. -/
def schemaPredicates (schema : SchemaIr) : Except StoreErr (List (Option SchemaPred)) :=
  match schema.predicates with
  | some ps => .ok ps
  | none => .error (.viewProjection "schema_ir.predicates must be list")

def requirePred : Option SchemaPred → Except StoreErr SchemaPred
  | some p => .ok p
  | none => .error (.viewProjection "schema predicate must be dict")

/-- The identity predicates by owner and field, and the existence predicates by owner. -/
structure OwnerIndex where
  byOwnerField : List ((String × String) × SchemaPred) := []
  existsByOwner : List (String × String) := []

/-- One turn of the loop over the predicates. -/
def OwnerIndex.add (ix : OwnerIndex) (pred : SchemaPred) : OwnerIndex :=
  match pred.ownerType, pred.predId with
  | some owner, some predId =>
      { existsByOwner :=
          if pred.isEntityExists then Dict.set ix.existsByOwner owner predId else ix.existsByOwner
        byOwnerField :=
          match pred.isIdentityField, pred.pyFieldName with
          | true, some field =>
              if field ≠ "" then Dict.set ix.byOwnerField (owner, field) pred else ix.byOwnerField
          | _, _ => ix.byOwnerField }
  | _, _ => ix

/-- An identity field with the value and the claim of every entity that has one. -/
structure SelectedField where
  name : String
  typeDomain : String
  values : List (String × Rules.Value × String)

/-- The values of one identity field. -/
def selectIdentityField (r : LedgerReads) (ix : OwnerIndex) (entityType : String)
    (field : Option IdentityField) : Except StoreErr SelectedField :=
  match field with
  | none => .error (.viewProjection "identity field must be dict")
  | some ⟨some name, some domain⟩ =>
      match Dict.get? ix.byOwnerField (entityType, name) with
      | none => .error (.viewProjection s!"missing identity predicate for {entityType}.{name}")
      | some pred => do
          let claims ← selectViewClaims r pred
          let values ← claims.foldlM (fun values claim => do
            let fact ← buildArgsForClaim r claim
            match fact with
            | [_, value] => .ok (Dict.set values claim.eRef (value, claim.asrtId))
            | _ => .error (.viewProjection
                ("identity predicate " ++ pred.predId.getD "" ++ " must be binary"))) []
          .ok ⟨name, domain, values⟩
  | some _ => .error (.viewProjection "identity field name/domain is invalid")

/-- The entities every identity field knows, in the order of their encodings. -/
def candidateRefs (fields : List SelectedField) : List String :=
  match fields with
  | [] => []
  | first :: rest =>
      ((Dict.keys first.values).filter fun e => rest.all fun f => Dict.has f.values e).insertionSort
        fun a b => utf8 a ≤ utf8 b

/-- The row of one candidate, with the claims it rests on; none if the identity values do not spell
the reference. -/
def existsRow (host : Host) (entityType : String) (fields : List SelectedField) (eRef : String) :
    Except StoreErr (Option (Fact × List String)) :=
  let values := fields.map fun f => (f, (Dict.get? f.values eRef).getD (.none, ""))
  match encodeIdrefV1 host entityType
      (values.map fun (f, v) => (f.name, f.typeDomain, datumOf v.1)) with
  | .error (.typeError _) | .error (.valueError _) => .ok none
  | .error e => .error e
  | .ok expected =>
      if expected ≠ eRef then .ok none
      else .ok (some ([.str eRef],
        (values.map fun (_, v) => v.2).insertionSort fun a b => utf8 a ≤ utf8 b))

/-- The rows of one entity type, by its existence predicate. -/
def entityRows (host : Host) (r : LedgerReads) (ix : OwnerIndex) (entity : Option SchemaEntity) :
    Except StoreErr (Option (String × List (Fact × List String))) :=
  match entity with
  | none => .error (.viewProjection "schema entity must be dict")
  | some ⟨some entityType, some identityFields⟩ =>
      match Dict.get? ix.existsByOwner entityType with
      | none => .ok none
      | some predId => do
          let fields ← mapOk (selectIdentityField r ix entityType) identityFields
          let rows ← mapOk (existsRow host entityType fields) (candidateRefs fields)
          .ok (some (predId, rows.reduceOption))
  | some _ => .error (.viewProjection "schema entity identity is invalid")

/-- `_virtual_entity_exists_rows`. -/
def virtualEntityExistsRows (host : Host) (r : LedgerReads) (schema : SchemaIr) :
    Except StoreErr (List (String × List (Fact × List String))) := do
  let predicates ← schemaPredicates schema
  match schema.entities with
  | none => .error (.viewProjection "schema_ir.entities must be list when provided")
  | some entities => do
      let preds ← mapOk requirePred predicates
      let ix := preds.foldl OwnerIndex.add {}
      let output := (ix.existsByOwner.map Prod.snd).foldl (fun out p => Dict.set out p []) []
      entities.foldlM (fun out entity => do
        let rows ← entityRows host r ix entity
        .ok (match rows with
          | some (predId, rows) => Dict.set out predId rows
          | none => out)) output

/-! ## Projections -/

/-- `canonical_fact_sort_key`. -/
def canonicalFactSortKey (host : Host) (fact : Fact) : List String := fact.map host.str

/-- `sorted(rows, key=lambda row: canonical_fact_sort_key(fact))`. -/
def sortByFact {α : Type} (host : Host) (fact : α → Fact) (rows : List α) : List α :=
  rows.insertionSort fun a b =>
    canonicalFactSortKey host (fact a) ≤ canonicalFactSortKey host (fact b)

/-- The rows of one predicate of `project_view_facts`. -/
def projectPredicate (host : Host) (r : LedgerReads)
    (virtualExists : List (String × List (Fact × List String))) (pred : SchemaPred) :
    Except StoreErr (String × List Fact) := do
  let predId ← requirePredId pred
  if pred.isEntityExists then
    .ok (predId, sortByFact host id (((Dict.get? virtualExists predId).getD []).map Prod.fst))
  else do
    let claims ← selectActive r pred predId
    let facts ← mapOk (buildArgsForClaim r) claims
    .ok (predId, sortByFact host id facts)

/-- `project_view_facts`. -/
def projectViewFacts (host : Host) (r : LedgerReads) (schema : SchemaIr) :
    Except StoreErr (List (String × List Fact)) := do
  let predicates ← schemaPredicates schema
  let virtualExists ← virtualEntityExistsRows host r schema
  predicates.foldlM (fun out pred => do
    let pred ← requirePred pred
    let rows ← projectPredicate host r virtualExists pred
    .ok (Dict.set out rows.1 rows.2)) []

/-- `ProjectedFact`; the witness kind is a label no code here reads. -/
structure ProjectedFact where
  asrtId : String
  factTuple : Fact
  deriving DecidableEq

/-- The check of `ProjectedFact.__post_init__`. -/
def projectedFact (asrtId : String) (factTuple : Fact) : Except StoreErr ProjectedFact := do
  require (asrtId ≠ "") (.valueError "ProjectedFact.asrt_id must be non-empty string")
  .ok ⟨asrtId, factTuple⟩

/-- `_virtual_exists_witness_id`. -/
def virtualExistsWitnessId (host : Host) (predId eRef : String) (supports : List String) : String :=
  let payload := "\x00".intercalate ("factgraph.virtual-entity-exists.v1" :: predId :: eRef :: supports)
  "virtual-entity-exists:v1:" ++ hexdigest (host.sha256 (utf8 payload))

/-- `fact[0]` of an existence row. -/
def factRef : Fact → String
  | .str s :: _ => s
  | _ => ""

/-- `_project_entity_domains_with_witness`. -/
def projectEntityDomainsWithWitness (host : Host) (r : LedgerReads) (schema : SchemaIr) :
    Except StoreErr (List (String × List ProjectedFact)) := do
  let rows ← virtualEntityExistsRows host r schema
  mapOk (fun p => do
    let projected ← mapOk (fun row =>
      projectedFact (virtualExistsWitnessId host p.1 (factRef row.1) row.2) row.1) p.2
    .ok (p.1, sortByFact host (·.factTuple) projected)) rows

/-- The row of a selected claim, with its id. -/
def projectedClaim (r : LedgerReads) (claim : Claim) : Except StoreErr ProjectedFact := do
  let fact ← buildArgsForClaim r claim
  projectedFact claim.asrtId fact

/-- The rows of one predicate of `project_view_facts_with_witness`. -/
def projectPredicateWithWitness (host : Host) (r : LedgerReads)
    (virtualExists : List (String × List ProjectedFact)) (pred : SchemaPred) :
    Except StoreErr (String × List ProjectedFact) := do
  let predId ← requirePredId pred
  if pred.isEntityExists then .ok (predId, (Dict.get? virtualExists predId).getD [])
  else do
    let claims ← selectViewClaims r pred
    let projected ← mapOk (projectedClaim r) claims
    .ok (predId, sortByFact host (·.factTuple) projected)

/-- `project_view_facts_with_witness`. -/
def projectViewFactsWithWitness (host : Host) (r : LedgerReads) (schema : SchemaIr) :
    Except StoreErr (List (String × List ProjectedFact)) := do
  let predicates ← schemaPredicates schema
  let virtualExists ← projectEntityDomainsWithWitness host r schema
  predicates.foldlM (fun out pred => do
    let pred ← requirePred pred
    let rows ← projectPredicateWithWitness host r virtualExists pred
    .ok (Dict.set out rows.1 rows.2)) []

end FactGraph.View
