import FactGraph.Evidence.WriteProtocol

/-!
# What a database hashes

`core/store/database.py` and `core/protocol/lthash.py`: the tokens, the metadata entries and the
canonical bytes that the digests of a database are taken of, and the accumulator its state digest
is.

`DatabaseError` and its subclasses are one error here, as no code tells them apart by class, and
`LtHashError` is the `ValueError` it derives from.
-/

namespace FactGraph.Db

open Protocol Store Check

/-! ## The accumulator -/

/-- `LTHASH_STATE_BYTES`. -/
def lthashStateBytes : Nat := 2048

/-- A state of the accumulator: 1024 lanes of 16 bits, low byte first. -/
structure LtState where
  bytes : List UInt8
  size : bytes.length = lthashStateBytes

/-- What the database calls of the standard library: two digests, and `float.__repr__`. -/
structure Host where
  sha256 : List UInt8 → List UInt8
  shake256 : List UInt8 → LtState
  floatRepr : F64 → String

/-- The lanes of `_combine`. -/
def combineBytes (subtract : Bool) : List UInt8 → List UInt8 → List UInt8
  | lo :: hi :: state, lo' :: hi' :: vector =>
      let left := lo.toNat + 256 * hi.toNat
      let right := lo'.toNat + 256 * hi'.toNat
      let value := (if subtract then left + 65536 - right else left + right) % 65536
      UInt8.ofNat (value % 256) :: UInt8.ofNat (value / 256) :: combineBytes subtract state vector
  | _, _ => []

theorem length_combineBytes (subtract : Bool) :
    ∀ (n : Nat) (xs ys : List UInt8), xs.length = 2 * n → ys.length = 2 * n →
      (combineBytes subtract xs ys).length = 2 * n := by
  intro n
  induction n with
  | zero =>
    intro xs ys hxs hys
    rw [List.length_eq_zero_iff.mp hxs, List.length_eq_zero_iff.mp hys]
    rfl
  | succ n ih =>
    intro xs ys hxs hys
    match xs, ys with
    | lo :: hi :: xs, lo' :: hi' :: ys =>
      simp only [List.length_cons] at hxs hys
      simp only [combineBytes, List.length_cons, ih xs ys (by omega) (by omega)]
      omega
    | [], _ => simp at hxs
    | [_], _ =>
      simp only [List.length_singleton] at hxs
      omega
    | _ :: _ :: _, [] => simp at hys
    | _ :: _ :: _, [_] =>
      simp only [List.length_singleton] at hys
      omega

namespace LtState

/-- `empty_state`. -/
def empty : LtState := ⟨List.replicate lthashStateBytes 0, List.length_replicate⟩

/-- `_combine`. -/
def combine (state vector : LtState) (subtract : Bool) : LtState :=
  ⟨combineBytes subtract state.bytes vector.bytes,
    length_combineBytes subtract 1024 _ _ state.size vector.size⟩

/-- `LTHASH_SCHEME`. -/
def scheme : String := "lthash16-v2"

/-- `encode_state`. -/
def encode (state : LtState) : String := scheme ++ ":" ++ urlsafeBase64 state.bytes

end LtState

/-- `_ELEMENT_DOMAIN`. -/
def elementDomain : List UInt8 := utf8 "factgraph\x00lthash16-v2\x00element\x00"

/-- `hash_element`. -/
def hashElement (host : Host) (element : List UInt8) : LtState :=
  host.shake256 (elementDomain ++ bigEndian 8 element.length ++ element)

/-- The digit of a character of the URL-safe alphabet; the standard one is read as well. -/
def urlsafeValue? (c : Char) : Option Nat :=
  if c = '-' then some 62 else if c = '_' then some 63 else base64Value? c

/-- `base64.b64decode(text, altchars=b"-_", validate=True)`, in groups of four characters. -/
def b64decodeStrict? : List Char → Option (List UInt8)
  | [] => some []
  | [a, b, '=', '='] => do
      let a ← urlsafeValue? a
      let b ← urlsafeValue? b
      some [UInt8.ofNat (a * 4 + b / 16)]
  | [a, b, c, '='] => do
      let a ← urlsafeValue? a
      let b ← urlsafeValue? b
      let c ← urlsafeValue? c
      some [UInt8.ofNat (a * 4 + b / 16), UInt8.ofNat (b % 16 * 16 + c / 4)]
  | a :: b :: c :: d :: rest => do
      let a ← urlsafeValue? a
      let b ← urlsafeValue? b
      let c ← urlsafeValue? c
      let d ← urlsafeValue? d
      let raw ← b64decodeStrict? rest
      some (UInt8.ofNat (a * 4 + b / 16) :: UInt8.ofNat (b % 16 * 16 + c / 4) ::
        UInt8.ofNat (c % 4 * 64 + d) :: raw)
  | _ => none

/-- `decode_state`. -/
def decodeState (token : String) : Except StoreErr LtState := do
  let start := LtState.scheme ++ ":"
  require (startsWith start token) (.valueError s!"state digest must start with '{start}'")
  let payload := token.toList.drop start.length
  require (!payload.isEmpty) (.valueError "state digest payload is empty")
  let padding := List.replicate ((4 - payload.length % 4) % 4) '='
  match b64decodeStrict? (payload ++ padding) with
  | none => .error (.valueError "state digest payload is not canonical base64url")
  | some raw =>
      if h : raw.length = lthashStateBytes then do
        require (LtState.encode ⟨raw, h⟩ = token)
          (.valueError "state digest token is not canonically encoded")
        .ok ⟨raw, h⟩
      else .error (.valueError
        s!"LtHash state must be exactly {lthashStateBytes} bytes, got {raw.length}")

/-! ## Tokens -/

/-- The suffix consists of so many lowercase hexadecimal characters. -/
def isLowerHex (suffix : List Char) : Bool := suffix.all fun c => (hexValue? c).isSome

/-- `_require_token`. -/
def requireToken (value start field : String) : Except StoreErr String := do
  require (startsWith start value) (.database s!"{field} must start with '{start}'")
  let suffix := value.toList.drop start.length
  require (suffix.length = 64 && isLowerHex suffix)
    (.database s!"{field} must use 64 lowercase hex chars")
  .ok value

/-- `_require_db_id`. -/
def requireDbId (value : String) : Except StoreErr String := do
  require (startsWith "db:" value || startsWith "mem:" value)
    (.database "db_id must start with 'db:' or 'mem:'")
  .ok value

/-- `_require_asrt_id`. -/
def requireAsrtId (value field : String) : Except StoreErr String := do
  let suffix := if startsWith "asrt:" value then value.toList.drop 5 else value.toList
  require ((suffix.length = 32 || suffix.length = 64) && isLowerHex suffix)
    (.database s!"{field} must be UUID hex or 'asrt:' plus 32 or 64 lowercase hex chars")
  .ok value

/-! ## Fields -/

/-- `_str_field`. -/
def strField (value : String) : Except StoreErr (List UInt8) := do
  let length ← u32be (utf8 value).length
  .ok (length ++ utf8 value)

/-- `_bytes_field`. -/
def bytesField (raw : List UInt8) : Except StoreErr (List UInt8) := do
  let length ← u32be raw.length
  .ok (length ++ raw)

/-- `_u64be`. -/
def u64be (number : Nat) : Except StoreErr (List UInt8) :=
  if number < 2 ^ 64 then .ok (bigEndian 8 number)
  else .error (.database "integer is out of uint64 range")

/-! ## Metadata entries -/

/-- `MetaEntry`. -/
structure MetaEntry where
  key : String
  kind : String
  value : Datum
  deriving DecidableEq

/-- `_normalize_meta_entries` on one entry. -/
def normalizeMetaEntry (entry : MetaEntry) : Except StoreErr Unit := do
  require (entry.key ≠ "") (.database "meta key must be non-empty string")
  require (entry.kind ∈ metaKinds) (.database s!"unsupported meta kind: {entry.kind}")

/-- `_normalize_meta_entries`: the entries are returned as they are. -/
def normalizeMetaEntries (entries : List MetaEntry) : Except StoreErr Unit :=
  each normalizeMetaEntry entries

/-- `_RESERVED_ASSERTION_META_KEYS`. -/
def reservedAssertionMetaKeys : List String := ["assertion_digest", "schema_digest", "tx_id"]

/-- `_reject_reserved_meta_keys`. -/
def rejectReservedMetaKeys (keys : List String) (context : String) : Except StoreErr Unit := do
  require (keys.all fun key => !startsWith annotationCompatPrefix key) (.database
    (s!"{context} cannot use the reserved annotation storage namespace: " ++ annotationCompatPrefix))
  let reserved := reservedAssertionMetaKeys.filter (· ∈ keys)
  require reserved.isEmpty (.database
    (s!"{context} cannot use Database-reserved key(s): " ++ ", ".intercalate reserved))

/-- `_reject_duplicate_initial_meta_keys`. -/
def rejectDuplicateInitialMetaKeys (entries : List MetaEntry) (context : String) :
    Except StoreErr Unit :=
  let keys := entries.map (·.key)
  let duplicates := (keys.filter fun k => 1 < keys.count k).dedup.insertionSort (· ≤ ·)
  require duplicates.isEmpty (.database
    (s!"{context} keys must be unique; repeated key(s): " ++ ", ".intercalate duplicates))

mutual

/-- The JSON text of a document whose keys are sorted, without blanks, with `ensure_ascii=False`. -/
def jsonText (host : Host) : Json → List Char
  | .leaf .null => "null".toList
  | .leaf (.bool b) => (if b then "true" else "false").toList
  | .leaf (.int i) => (toString i).toList
  | .leaf (.float x) => (host.floatRepr x).toList
  | .leaf (.str s) => Evidence.jsonString s
  | .arr xs => '[' :: jsonItems host xs ++ [']']
  | .obj fs => '{' :: jsonMembers host fs ++ ['}']

def jsonItems (host : Host) : List Json → List Char
  | [] => []
  | [x] => jsonText host x
  | x :: xs => jsonText host x ++ ',' :: jsonItems host xs

def jsonMembers (host : Host) : List (String × Json) → List Char
  | [] => []
  | [(k, x)] => Evidence.jsonString k ++ ':' :: jsonText host x
  | (k, x) :: fs => Evidence.jsonString k ++ ':' :: jsonText host x ++ ',' :: jsonMembers host fs

end

/-- `_require_int64`. -/
def requireInt64 (value : Int) (field : String) : Except StoreErr Unit :=
  require (-2 ^ 63 ≤ value && value ≤ 2 ^ 63 - 1) (.database s!"{field} is out of int64 range")

/-- `_meta_value_bytes`. -/
def metaValueBytes (host : Host) (kind : String) (value : Datum) : Except StoreErr (List UInt8) :=
  match kind with
  | "str" =>
      match value with
      | .leaf (.str s) => .ok (utf8 s)
      | _ => .error (.database "meta str value must be str")
  | "int" =>
      match value with
      | .leaf (.int i) => (requireInt64 i "meta int").map fun _ => utf8 (toString i)
      | _ => .error (.database "meta int value must be int and not bool")
  | "float" =>
      match value with
      | .leaf (.int i) =>
          match floatOfInt? i with
          | some x => .ok (bigEndian 8 x.positiveZero.bits.toNat)
          | none => .error (.overflowError "int too large to convert to float")
      | .leaf (.float x) =>
          if x.isFinite then .ok (bigEndian 8 x.positiveZero.bits.toNat)
          else .error (.database "meta float value must be finite")
      | _ => .error (.database "meta float value must be numeric and not bool")
  | "bool" =>
      match value with
      | .leaf (.bool b) => .ok [if b then 1 else 0]
      | _ => .error (.database "meta bool value must be bool")
  | "time" =>
      match value with
      | .leaf (.int i) => (requireInt64 i "meta time").map fun _ => bigEndian 8 (i % 2 ^ 64).toNat
      | _ => .error (.database "meta time value must be int epoch nanos")
  | "json" => (dumpsSorted value).map fun doc => utf8 (String.ofList (jsonText host doc))
  | kind => .error (.database s!"unsupported meta kind: {kind}")

/-- An entry as `_canonical_meta_entries_bytes` sorts it; an `_UnsetMetaEntry` has the empty kind and
no bytes. -/
structure EncodedEntry where
  key : String
  kind : String
  raw : List UInt8

/-- The order of `encoded.sort`. -/
def EncodedEntry.le (a b : EncodedEntry) : Bool :=
  decide (a.key < b.key) || (decide (a.key = b.key) &&
    (decide (a.kind < b.kind) || (decide (a.kind = b.kind) && decide (a.raw ≤ b.raw))))

def encodeEntry (host : Host) (entry : MetaEntry) : Except StoreErr EncodedEntry :=
  (metaValueBytes host entry.kind entry.value).map fun raw => ⟨entry.key, entry.kind, raw⟩

def entryBytes (entry : EncodedEntry) : Except StoreErr (List UInt8) := do
  let key ← strField entry.key
  let kind ← strField entry.kind
  let raw ← bytesField entry.raw
  .ok (key ++ kind ++ raw)

/-- The part of `_canonical_meta_entries_bytes` after the entries are encoded. -/
def encodedEntriesBytes (encoded : List EncodedEntry) : Except StoreErr (List UInt8) := do
  let count ← u32be encoded.length
  let entries ← mapOk entryBytes (encoded.insertionSort fun a b => a.le b)
  .ok (count ++ entries.flatten)

/-- `_canonical_meta_entries_bytes`. -/
def canonicalMetaEntriesBytes (host : Host) (entries : List MetaEntry) :
    Except StoreErr (List UInt8) := do
  let encoded ← mapOk (encodeEntry host) entries
  encodedEntriesBytes encoded

/-! ## Assertions -/

/-- `_normalize_fact_tuple`: the tuple is returned as it is. -/
def normalizeFactTuple (factTuple : List Term) : Except StoreErr Unit := do
  require (!factTuple.isEmpty) (.database "fact_tuple must include entity_ref in position 0")
  require ((factTuple.head?.map Prod.fst) = some "entity_ref")
    (.database "fact_tuple[0] must be ('entity_ref', e_ref)")
  let _ ← canonicalBytesTupV1 factTuple
  .ok ()

/-- `ASSERTION_V1_PREFIX`. -/
def assertionV1Prefix : List UInt8 := utf8 "factpy\x00assertion_v1\x00"

/-- `canonical_bytes_assertion_v1`. -/
def canonicalBytesAssertionV1 (host : Host) (predId : String) (factTuple : List Term)
    (schemaDigest : String) (entries : List MetaEntry) : Except StoreErr (List UInt8) := do
  require (predId ≠ "") (.database "pred_id must be non-empty string")
  let _ ← requireToken schemaDigest "sha256:" "schema_digest"
  normalizeFactTuple factTuple
  normalizeMetaEntries entries
  let factBytes ← canonicalBytesTupV1 factTuple
  let metaBytes ← canonicalMetaEntriesBytes host entries
  let pred ← strField predId
  let fact ← bytesField factBytes
  let schema ← strField schemaDigest
  let metadata ← bytesField metaBytes
  .ok (assertionV1Prefix ++ pred ++ fact ++ schema ++ metadata)

/-- `assertion_digest_for`. -/
def assertionDigestFor (host : Host) (predId : String) (factTuple : List Term)
    (schemaDigest : String) (entries : List MetaEntry) : Except StoreErr String :=
  (canonicalBytesAssertionV1 host predId factTuple schemaDigest entries).map (sha256Token host.sha256)

/-- `DBSTATE_ELEMENT_V2_PREFIX`. -/
def dbstateElementV2Prefix : List UInt8 := utf8 "factgraph\x00dbstate_element_v2\x00"

/-- `_state_element`. -/
def stateElement (asrtId assertionDigest : String) : Except StoreErr (List UInt8) := do
  let _ ← requireAsrtId asrtId "asrt_id"
  let _ ← requireToken assertionDigest "sha256:" "assertion_digest"
  let id ← strField asrtId
  let digest ← strField assertionDigest
  .ok (dbstateElementV2Prefix ++ id ++ digest)

/-! ## Transactions -/

/-- An operation of a transaction that `commit_changes` makes of an assertion or a revocation. -/
inductive TxOperation where
  | assertion (asrtId assertionDigest : String)
  | revocation (revokerAsrtId revokedAsrtId : String) (entries : List MetaEntry)

/-- `_normalize_tx_operations` on one operation, which is returned as it is. -/
def TxOperation.normalize : TxOperation → Except StoreErr Unit
  | .assertion asrtId assertionDigest => do
      let _ ← requireAsrtId asrtId "asrt_id"
      let _ ← requireToken assertionDigest "sha256:" "assertion_digest"
      .ok ()
  | .revocation revokerAsrtId revokedAsrtId entries => do
      let _ ← requireAsrtId revokerAsrtId "revoker_asrt_id"
      let _ ← requireAsrtId revokedAsrtId "revoked_asrt_id"
      normalizeMetaEntries entries

/-- The bytes of one operation. -/
def TxOperation.bytes (host : Host) : TxOperation → Except StoreErr (List UInt8)
  | .assertion asrtId assertionDigest => do
      let id ← strField asrtId
      let digest ← strField assertionDigest
      .ok (utf8 "A" ++ id ++ digest)
  | .revocation revokerAsrtId revokedAsrtId entries => do
      let revoker ← strField revokerAsrtId
      let revoked ← strField revokedAsrtId
      let raw ← canonicalMetaEntriesBytes host entries
      let metadata ← bytesField raw
      .ok (utf8 "R" ++ revoker ++ revoked ++ metadata)

/-- `DBTX_V2_PREFIX`. -/
def dbtxV2Prefix : List UInt8 := utf8 "factgraph\x00dbtx_v2\x00"

/-- The parent of a transaction, framed. -/
def parentBytes : Option String → Except StoreErr (List UInt8)
  | none => .ok [0]
  | some parentTxId => (strField parentTxId).map fun field => 1 :: field

/-- `canonical_bytes_dbtx_v2` without metadata defaults, under the scheme of the accumulator. -/
def canonicalBytesDbtxV2 (host : Host) (parentTxId : Option String) (schemaDigest : String)
    (txSeq : Nat) (operations : List TxOperation) : Except StoreErr (List UInt8) := do
  match parentTxId with
  | none => .ok ()
  | some parent => do
      let _ ← requireToken parent "tx:" "parent_tx_id"
      .ok ()
  let _ ← requireToken schemaDigest "sha256:" "schema_digest"
  each TxOperation.normalize operations
  let parent ← parentBytes parentTxId
  let schema ← strField schemaDigest
  let scheme ← strField LtState.scheme
  let seq ← u64be txSeq
  let count ← u32be operations.length
  let body ← mapOk (TxOperation.bytes host) operations
  .ok (dbtxV2Prefix ++ parent ++ schema ++ scheme ++ seq ++ count ++ body.flatten)

/-- `_tx_id_for_v2`. -/
def txIdForV2 (host : Host) (parentTxId : Option String) (schemaDigest : String) (txSeq : Nat)
    (operations : List TxOperation) : Except StoreErr String :=
  (canonicalBytesDbtxV2 host parentTxId schemaDigest txSeq operations).map fun raw =>
    "tx:" ++ hexdigest (host.sha256 raw)

end FactGraph.Db
