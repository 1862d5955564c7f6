import FactGraph.Store.Ledger

/-!
# The write protocol

`core/evidence/write_protocol.py`: the four operations that write a field of an entity. A write is
turned into a claim with its arguments, its metadata and its annotations, and handed to the ledger
under an **ingest key**: a digest of what the write says and where it comes from. The ledger answers
a key in use with the claim that has it.

An operation takes what the host would give it as arguments: the digest function, the id
`new_assertion_id` returns and the time `now_epoch_nanos` returns. Only well-typed calls are
modelled (`pred_id` is a string, `meta` a dictionary with string keys).
-/

namespace FactGraph.Evidence

open Protocol Store Check

/-! ## Metadata of a write -/

/-- The `meta` of a call: a dictionary, so every key is there once. -/
structure MetaDict where
  entries : List (String × Datum)
  distinct : (Dict.keys entries).Nodup

namespace MetaDict

def empty : MetaDict := ⟨[], by simp [Dict.keys]⟩

/-- `key in meta`. -/
def has (m : MetaDict) (key : String) : Bool := Dict.has m.entries key

/-- `meta.get(key)`. -/
def get (m : MetaDict) (key : String) : Datum := (Dict.get? m.entries key).getD (.leaf .none)

/-- `meta[key] = value`. -/
def set (m : MetaDict) (key : String) (value : Datum) : MetaDict :=
  ⟨Dict.set m.entries key value, Dict.nodup_keys_set m.distinct key value⟩

/-- `sorted(meta.keys())`, with the values. -/
def sorted (m : MetaDict) : List (String × Datum) :=
  m.entries.insertionSort fun p q => p.1 ≤ q.1

end MetaDict

/-- `SYSTEM_MANAGED_META_KEYS`. -/
def systemManagedMetaKeys : List String := ["ingested_at", "ingest_key", "revoked_asrt_id"]

/-- `EVENT_TIME_META_KEY`. -/
def eventTimeMetaKey : String := "event_time"

/-- `sorted(_REMOVED_UNCERTAINTY_META_KEYS)`. -/
def removedUncertaintyMetaKeys : List String :=
  ["bound_lower", "bound_upper", "confidence", "confidence_source", "probability"]

/-- `sorted(_RAW_UNCERTAINTY_KINDS)`. -/
def rawUncertaintyKinds : List String := ["possibilistic", "probabilistic"]

/-- `_KEY_KIND_MAP`. -/
def keyKind? (key : String) : Option String :=
  if key ∈ ["ingested_at", "accepted_at", eventTimeMetaKey] then some "time"
  else if key = "bound" then some "json"
  else if key ∈ ["ingest_key", "revoked_asrt_id", "source", "source_loc", "trace_id", "raw_kind",
      "approved_by", "accepted_by", "note", "derived_rule_id", "derived_rule_version",
      "derivation_id", "derivation_version", "run_id", "support_digest", "support_kind",
      "confidence_kind", "candidate_id", "candidate_key", "candidate_kind", "key_tuple_digest",
      "cand_key_digest", "schema_digest", "policy_digest", "meta_origin", "entity_type",
      "entity_ref", "identity_override_digest", "subject_e_ref", "materialize_id"]
  then some "str"
  else none

/-! ## Normalization -/

def checkMetaKey (key : String) : Except StoreErr Unit := do
  require (key ≠ "") (.writeProtocol "meta keys must be non-empty strings")
  require (!startsWith annotationCompatPrefix key) (.writeProtocol
    ("meta key uses the reserved annotation storage namespace: " ++ annotationCompatPrefix))
  require (key ∉ systemManagedMetaKeys) (.writeProtocol
    (s!"meta[{key}] is reserved and system-managed; use meta[{eventTimeMetaKey}] for " ++
      "source event time"))

/-- `_validate_no_removed_uncertainty_keys`. -/
def validateNoRemovedUncertaintyKeys (m : MetaDict) : Except StoreErr Unit :=
  each (fun key => require (!m.has key) (.writeProtocol
    (if key = "confidence" ∨ key = "confidence_source" then
      s!"meta[{key}] was removed. Use raw_kind / bound for uncertainty inputs."
    else s!"meta[{key}] is not accepted as user-authored raw uncertainty; " ++
      "use meta[raw_kind] and meta[bound]"))) removedUncertaintyMetaKeys

/-- Is the float a `nan`? -/
def isNan (x : F64) : Bool := !x.isFinite && x.bits &&& 0xfffffffffffff != 0

/-- The place of a float in the order of floats: its bits as a number with a sign. -/
def rank (x : F64) : Int :=
  let magnitude : Int := (x.bits &&& 0x7fffffffffffffff).toNat
  if x.bits >>> 63 == 1 then -magnitude else magnitude

/-- `x < y` between floats, false of a `nan`. -/
def floatLt (x y : F64) : Bool := !isNan x && !isNan y && decide (rank x < rank y)

/-- `float(value)` on a number, after the checks of its type. -/
def boundValue (value : Datum) : Except StoreErr F64 :=
  match value with
  | .leaf (.int i) =>
      match floatOfInt? i with
      | some x => .ok x
      | none => .error (.overflowError "int too large to convert to float")
  | .leaf (.float x) => .ok x
  | _ => .error (.writeProtocol "meta[bound] values must be numeric")

def isBool : Datum → Bool
  | .leaf (.bool _) => true
  | _ => false

def isNumeric : Datum → Bool
  | .leaf (.int _) | .leaf (.float _) | .leaf (.bool _) => true
  | _ => false

/-- The bits of `1.0`. -/
def floatOne : F64 := ⟨0x3ff0000000000000⟩

/-- `_normalize_uncertainty_bound`. A `nan` is within every bound. -/
def normalizeUncertaintyBound (value : Datum) : Except StoreErr Datum :=
  match value with
  | .arr [lowerRaw, upperRaw] => do
      require (!(isBool lowerRaw || isBool upperRaw))
        (.writeProtocol "meta[bound] values must be numeric and not bool")
      require (isNumeric lowerRaw && isNumeric upperRaw)
        (.writeProtocol "meta[bound] values must be numeric")
      let lower ← boundValue lowerRaw
      let upper ← boundValue upperRaw
      require (!(floatLt lower ⟨0⟩ || floatLt floatOne upper))
        (.writeProtocol "meta[bound] values must be within [0,1]")
      require (!floatLt upper lower) (.writeProtocol "meta[bound] lower must be <= upper")
      .ok (.arr [.leaf (.float lower), .leaf (.float upper)])
  | _ => .error (.writeProtocol "meta[bound] must be a two-element JSON list")

/-- The check of `meta["raw_kind"]`. -/
def checkRawKind (value : Datum) : Except StoreErr Unit :=
  let allowed := ", ".intercalate rawUncertaintyKinds
  match value with
  | .leaf (.str s) => require (s ∈ rawUncertaintyKinds)
      (.writeProtocol ("meta[raw_kind] must be one of: " ++ allowed))
  | _ => .error (.writeProtocol ("meta[raw_kind] must be one of: " ++ allowed))

/-- `_normalize_raw_uncertainty_meta`. -/
def normalizeRawUncertaintyMeta (m : MetaDict) : Except StoreErr MetaDict := do
  require (m.has "raw_kind" == m.has "bound")
    (.writeProtocol "meta[raw_kind] and meta[bound] must be provided together")
  if m.has "raw_kind" then do
    checkRawKind (m.get "raw_kind")
    let bound ← normalizeUncertaintyBound (m.get "bound")
    .ok (m.set "bound" bound)
  else .ok m

/-- `_normalize_meta`. -/
def normalizeMeta (m : Option MetaDict) : Except StoreErr MetaDict :=
  match m with
  | none => .ok .empty
  | some m => do
      each (fun p => checkMetaKey p.1) m.entries
      validateNoRemovedUncertaintyKeys m
      normalizeRawUncertaintyMeta m

/-! ## The ingest key -/

/-- A character of a JSON string, with `ensure_ascii=False`. -/
def jsonChar (c : Char) : List Char :=
  if c = '"' then ['\\', '"'] else if c = '\\' then ['\\', '\\']
  else if c = '\n' then ['\\', 'n'] else if c = '\r' then ['\\', 'r']
  else if c = '\t' then ['\\', 't'] else if c.toNat = 12 then ['\\', 'f']
  else if c.toNat = 8 then ['\\', 'b']
  else if c.toNat < 32 then '\\' :: 'u' :: hex4 c.toNat
  else [c]

def jsonString (s : String) : List Char := '"' :: s.toList.flatMap jsonChar ++ ['"']

/-- The JSON text of the values an ingest key is made of: strings, integers and `None`. -/
def jsonValue : Datum → List Char
  | .leaf (.str s) => jsonString s
  | .leaf (.int i) => (toString i).toList
  | _ => "null".toList

/-- `json.dumps(fields, sort_keys=True, separators=(",", ":"), ensure_ascii=False)` on fields that are
in the order of their keys. -/
def jsonFields (fields : List (String × Datum)) : String :=
  let texts := fields.map fun p => String.ofList (jsonString p.1 ++ ':' :: jsonValue p.2)
  "\x7b" ++ ",".intercalate texts ++ "\x7d"

/-- `value is not None and not isinstance(value, str)`, negated. -/
def isStrOrNone : Datum → Bool
  | .leaf .none | .leaf (.str _) => true
  | _ => false

def isVersion : Datum → Bool
  | .leaf .none | .leaf (.str _) | .leaf (.int _) => true
  | _ => false

/-- `_compute_ingest_key`. -/
def computeIngestKey (sha256 : List UInt8 → List UInt8) (predId eRef : String)
    (restTerms : List Term) (m : MetaDict) : Except StoreErr String := do
  each (fun key => require (isStrOrNone (m.get key))
    (.writeProtocol s!"meta[{key}] must be string when provided")) ["source", "source_loc", "trace_id"]
  each (fun key => require (isStrOrNone (m.get key))
    (.writeProtocol s!"meta[{key}] must be string when provided")) ["valid_from", "valid_to"]
  require (isVersion (m.get "version"))
    (.writeProtocol "meta[version] must be string or int when provided")
  let material (keys : List String) : Datum :=
    .leaf (.bytes (utf8 (jsonFields (keys.map fun key => (key, m.get key)))))
  let ingestBytes ← canonicalBytesTupV1
    ([("string", .leaf (.str "ingest_key_v2")), ("string", .leaf (.str predId)),
      ("entity_ref", .leaf (.str eRef))] ++ restTerms ++
      [("bytes", material ["source", "source_loc", "trace_id"]),
        ("bytes", material ["valid_from", "valid_to", "version"])])
  .ok ("sha256:" ++ hexdigest (sha256 ingestBytes))

/-! ## Rows -/

/-- `type(value).__name__`. -/
def typeName : Datum → String
  | .leaf .none => "NoneType"
  | .leaf (.bool _) => "bool"
  | .leaf (.int _) => "int"
  | .leaf (.float _) => "float"
  | .leaf (.str _) => "str"
  | .leaf (.bytes _) => "bytes"
  | .arr _ => "list"
  | .obj _ => "dict"

mutual

/-- Does `json.dumps` accept the value? It has no form for bytes. -/
def isJson : Datum → Bool
  | .leaf (.bytes _) => false
  | .leaf _ => true
  | .arr xs => isJsonList xs
  | .obj fs => isJsonFields fs

def isJsonList : List Datum → Bool
  | [] => true
  | x :: xs => isJson x && isJsonList xs

def isJsonFields : List (String × Datum) → Bool
  | [] => true
  | (_, x) :: fs => isJson x && isJsonFields fs

end

/-- `_infer_meta_kind_by_value`. -/
def inferMetaKindByValue (key : String) (value : Datum) : Except StoreErr String :=
  if key ∈ ["ingested_at", eventTimeMetaKey] then
    match value with
    | .leaf (.int _) => .ok "time"
    | _ => .error (.writeProtocol s!"{key} must be epoch-nanos int")
  else
    match value with
    | .leaf (.bool _) => .ok "bool"
    | .leaf (.str _) => .ok "str"
    | .leaf (.float _) => .ok "float"
    | .leaf (.int _) => .ok "int"
    | value => .error (.writeProtocol s!"unsupported meta type for {key}: {typeName value}")

/-- `_validate_meta_value_for_kind`. -/
def validateMetaValueForKind (key kind : String) (value : Datum) : Except StoreErr Unit :=
  match kind, value with
  | "str", .leaf (.str _) => .ok ()
  | "str", _ => .error (.writeProtocol s!"meta[{key}] must be str")
  | "int", .leaf (.int _) => .ok ()
  | "int", _ => .error (.writeProtocol s!"meta[{key}] must be int")
  | "float", .leaf (.float _) => .ok ()
  | "float", _ => .error (.writeProtocol s!"meta[{key}] must be float")
  | "bool", .leaf (.bool _) => .ok ()
  | "bool", _ => .error (.writeProtocol s!"meta[{key}] must be bool")
  | "time", .leaf (.int _) => .ok ()
  | "time", _ => .error (.writeProtocol s!"meta[{key}] must be epoch-nanos int")
  | "json", value => require (isJson value)
      (.writeProtocol s!"meta[{key}] must be JSON-serializable")
  | kind, _ => .error (.writeProtocol s!"unsupported mapped meta kind for {key}: {kind}")

/-- `_infer_meta_kind`. -/
def inferMetaKind (key : String) (value : Datum) : Except StoreErr String :=
  match keyKind? key with
  | some kind => (validateMetaValueForKind key kind value).map fun _ => kind
  | none => inferMetaKindByValue key value

/-- `_user_meta_rows`. -/
def userMetaRows (asrtId : String) (m : MetaDict) : Except StoreErr (List MetaRow) :=
  mapOk (fun p => (inferMetaKind p.1 p.2).map fun kind => ⟨asrtId, .plain p.1, kind, p.2⟩)
    (m.sorted.filter fun p => p.1 ∉ systemManagedMetaKeys)

/-- `_meta_rows_for_claim`. -/
def metaRowsForClaim (asrtId : String) (m : MetaDict) (ingestKey : String) (ingestedAt : Int64) :
    Except StoreErr (List MetaRow) :=
  (userMetaRows asrtId m).map fun rows =>
    ⟨asrtId, .plain "ingested_at", "time", .leaf (.int ingestedAt.toInt)⟩ ::
      ⟨asrtId, .plain "ingest_key", "str", .leaf (.str ingestKey)⟩ :: rows

/-- The annotation of one entry of the metadata, if its key is a shared one. -/
def annotationRowFor (asrtId : String) (p : String × Datum) :
    Except StoreErr (Option AnnotationRow) :=
  match sharedAnnotationKey? p.1 with
  | none => .ok none
  | some (category, origin) => do
      let kind ← match keyKind? p.1 with
        | some kind => .ok kind
        | none => inferMetaKindByValue p.1 p.2
      .ok (some ⟨asrtId, "shared", category, p.1, kind, p.2, origin, none⟩)

/-- `_annotation_rows_for_claim`. -/
def annotationRowsForClaim (asrtId : String) (m : MetaDict) :
    Except StoreErr (List AnnotationRow) :=
  (mapOk (annotationRowFor asrtId) m.sorted).map (List.filterMap id)

/-! ## The operations -/

/-- `_validate_write_inputs`. -/
def validateWriteInputs (predId eRef : String) (restTerms : List Term) : Except StoreErr Unit := do
  require (predId ≠ "") (.writeProtocol "pred_id must be non-empty string")
  require (!startsWith systemPrefix predId) (.writeProtocol
    ("general field writes cannot use the reserved '__system__.' namespace; " ++
      "use retract_by_asrt for revocations"))
  require (eRef ≠ "") (.writeProtocol "e_ref must be non-empty string")
  match canonicalBytesTupV1 restTerms with
  | .ok _ => .ok ()
  | .error (.valueError msg) => .error (.writeProtocol msg)
  | .error e => .error e

/-- The arguments of `set_field`. -/
structure FieldWrite where
  predId : String
  eRef : String
  restTerms : List Term
  metaData : Option MetaDict := none

/-- The part of `set_field` before it asks for an id: the checks, the metadata and the key. -/
def FieldWrite.prepare (sha256 : List UInt8 → List UInt8) (w : FieldWrite) :
    Except StoreErr (MetaDict × String) := do
  validateWriteInputs w.predId w.eRef w.restTerms
  let m ← normalizeMeta w.metaData
  let ingestKey ← computeIngestKey sha256 w.predId w.eRef w.restTerms m
  .ok (m, ingestKey)

/-- What `set_field` hands to `append_assertion`. -/
def FieldWrite.assertionArgs (w : FieldWrite) (m : MetaDict) (ingestKey asrtId : String)
    (ingestedAt : Int64) : Except StoreErr Ledger.AssertionArgs := do
  let rows ← claimArgsFromRestTerms w.restTerms
  let metaRows ← metaRowsForClaim asrtId m ingestKey ingestedAt
  let annotationRows ← annotationRowsForClaim asrtId m
  .ok { claim := ⟨asrtId, w.predId, w.eRef, w.restTerms⟩
        claimArgs := Indexes.argRows asrtId rows
        metaRows, annotationRows
        idempotency := some ⟨ingestKey, .skip⟩
        asrtId := some asrtId }

/-- `set_field`. -/
def setField (sha256 : List UInt8 → List UInt8) (l : Ledger) (w : FieldWrite) (asrtId : String)
    (ingestedAt : Int64) : Ledger × Except StoreErr String :=
  match w.prepare sha256 with
  | .error e => (l, .error e)
  | .ok (m, ingestKey) =>
      match w.assertionArgs m ingestKey asrtId ingestedAt with
      | .error e => (l, .error e)
      | .ok args =>
          let r := l.appendAssertion args
          (r.1, r.2.map (·.asrtId))

/-- `add_field`. -/
def addField (sha256 : List UInt8 → List UInt8) (l : Ledger) (w : FieldWrite) (asrtId : String)
    (ingestedAt : Int64) : Ledger × Except StoreErr String :=
  setField sha256 l w asrtId ingestedAt

/-- The checks of `retract_by_asrt` on its target. -/
def checkRetraction (l : Ledger) (revokedAsrtId : String) : Except StoreErr Unit := do
  require (revokedAsrtId ≠ "") (.writeProtocol "revoked_asrt_id must be non-empty string")
  match l.getClaimIncludingSystem revokedAsrtId with
  | none => .error (.writeProtocol s!"unknown revoked_asrt_id: {revokedAsrtId}")
  | some target => require (!startsWith systemPrefix target.predId) (.writeProtocol
      (s!"INV-12 part 2: target '{revokedAsrtId}' is a system claim (pred_id=" ++
        s!"'{target.predId}'); revoke-of-revoke is forbidden. See ADR-SYS-B §4.1.5."))

/-- The metadata of a retraction. -/
def metaRowsForRetraction (revokedAsrtId : String) (m : Option MetaDict) (revokerAsrtId : String)
    (ingestedAt : Int64) : Except StoreErr (List MetaRow) := do
  let m ← normalizeMeta m
  let rows ← userMetaRows revokerAsrtId m
  .ok (⟨revokerAsrtId, .plain "ingested_at", "time", .leaf (.int ingestedAt.toInt)⟩ ::
    ⟨revokerAsrtId, .plain "revoked_asrt_id", "str", .leaf (.str revokedAsrtId)⟩ :: rows)

/-- `retract_by_asrt`. -/
def retractByAsrt (l : Ledger) (revokedAsrtId : String) (m : Option MetaDict)
    (revokerAsrtId : String) (ingestedAt : Int64) : Ledger × Except StoreErr String :=
  match checkRetraction l revokedAsrtId with
  | .error e => (l, .error e)
  | .ok () =>
      match l.findRevoker revokedAsrtId with
      | some existing => (l, .ok existing)
      | none =>
          match metaRowsForRetraction revokedAsrtId m revokerAsrtId ingestedAt with
          | .error e => (l, .error e)
          | .ok metaRows =>
              let r := l.appendRevocation
                { revokes := ⟨revokerAsrtId, revokedAsrtId⟩, metaRows
                  revokerAsrtId := some revokerAsrtId }
              (r.1, r.2.map fun _ => revokerAsrtId)

/-- `_preflight_new_assertion`. -/
def FieldWrite.preflight (sha256 : List UInt8 → List UInt8) (w : FieldWrite) :
    Except StoreErr Unit := do
  let (m, ingestKey) ← w.prepare sha256
  let _ ← metaRowsForClaim "_preflight_" m ingestKey 0
  let _ ← annotationRowsForClaim "_preflight_" m
  .ok ()

/-- `_find_active_matching_claim`. -/
def findActiveMatchingClaim (l : Ledger) (predId eRef : String) (restTerms : List Term) :
    Option String :=
  ((l.findClaims (some predId) (some eRef)).find? fun claim =>
    Term.eqvList claim.restTerms restTerms && !l.hasActiveRevocation claim.asrtId).map (·.asrtId)

/-- `replace_field`; its two writes are given an id and a time each. -/
def replaceField (sha256 : List UInt8 → List UInt8) (l : Ledger) (w : FieldWrite)
    (oldRestTerms : List Term) (revokerAsrtId : String) (revokedAt : Int64) (asrtId : String)
    (ingestedAt : Int64) : Ledger × Except StoreErr (String × String) :=
  match validateWriteInputs w.predId w.eRef oldRestTerms, w.preflight sha256 with
  | .error e, _ | .ok (), .error e => (l, .error e)
  | .ok (), .ok () =>
      match findActiveMatchingClaim l w.predId w.eRef oldRestTerms with
      | none => (l, .error (.writeProtocol "replace_field requires an active old assertion"))
      | some oldAsrtId =>
          match retractByAsrt l oldAsrtId w.metaData revokerAsrtId revokedAt with
          | (l, .error e) => (l, .error e)
          | (l, .ok revoker) =>
              let r := setField sha256 l w asrtId ingestedAt
              (r.1, r.2.map fun id => (revoker, id))

end FactGraph.Evidence
