import FactGraph.Lib.Doc
import FactGraph.Rules.Value

/-!
# Canonical terms

`core/protocol/tup_v1.py`: the tagged terms of a fact, the cell each becomes in a view
(`claim_args_from_rest_terms`) and the bytes a digest is taken of (`canonical_bytes_tup_v1`).

A term is a pair of a tag and a Python object. The object is a `Datum`: a scalar, or a list or
`dict` of data (which no tag accepts, but which metadata may hold). Strings are sequences of
Unicode scalar values, so the `UnicodeEncodeError` of a lone surrogate has no counterpart here;
`bytearray` and `memoryview` are `bytes`, and the keys of a `dict` are strings.
-/

namespace FactGraph

/-! ## Errors -/

/-- What the ledger, the evidence layer, the projector and the database raise. The names are those
of the exception classes; `integrityError` is `sqlite3.IntegrityError`. -/
inductive StoreErr where
  | valueError (msg : String)
  | typeError (msg : String)
  | overflowError (msg : String)
  | integrityError (msg : String)
  | ledgerFormat (msg : String)
  | ledgerHeadConflict (msg : String)
  | duplicateIngestKey (msg : String)
  | writeProtocol (msg : String)
  | policyNonDeterminism (msg : String)
  | viewProjection (msg : String)
  | database (msg : String)
  deriving DecidableEq, Repr

namespace Protocol

/-! ## Data -/

/-- A Python `float`: the 64 bits of an IEEE 754 double. -/
structure F64 where
  bits : UInt64
  deriving DecidableEq, Repr

/-- `math.isfinite`. -/
def F64.isFinite (x : F64) : Bool := (x.bits >>> 52) &&& 0x7ff != 0x7ff

/-- `x == 0.0`, true of both zeros. -/
def F64.isZero (x : F64) : Bool := x.bits &&& 0x7fffffffffffffff == 0

/-- `0.0 if x == 0.0 else x`. -/
def F64.positiveZero (x : F64) : F64 := if x.isZero then ⟨0⟩ else x

/-- The number a finite float denotes. -/
def F64.toRat (x : F64) : Rat :=
  let e := ((x.bits >>> 52) &&& 0x7ff).toNat
  let m := (x.bits &&& 0xfffffffffffff).toNat
  let s : Rat := if x.bits >>> 63 == 1 then -1 else 1
  if e = 0 then s * m / 2 ^ 1074 else s * (m + 2 ^ 52) * 2 ^ e / 2 ^ 1075

/-- The Python objects without parts. -/
inductive Scalar where
  | none
  | bool (b : Bool)
  | int (i : Int)
  | float (x : F64)
  | str (s : String)
  | bytes (b : List UInt8)
  deriving DecidableEq, Repr

/-- A Python object the store is handed: a scalar, a list or a `dict`. -/
abbrev Datum := Doc Scalar

/-- One representative of each class of equal scalars: `True == 1 == 1.0`. A `nan` is left as it
is: the list comparison of Python takes an object as equal to itself. -/
def Scalar.canon : Scalar → Scalar ⊕ Rat
  | .bool b => .inr (if b then 1 else 0)
  | .int i => .inr i
  | .float x => if x.isFinite then .inr x.toRat else .inl (.float x)
  | s => .inl s

/-- A tagged term `(tag, value)`. -/
abbrev Term := String × Datum

/-- Python `==` between two terms whose values are scalars. -/
def Term.eqv (t u : Term) : Bool :=
  match t, u with
  | (a, .leaf x), (b, .leaf y) => decide (a = b) && decide (x.canon = y.canon)
  | (a, x), (b, y) => decide (a = b) && decide (x = y)

/-- Python `==` between two lists of terms. -/
def Term.eqvList (ts us : List Term) : Bool :=
  ts.length == us.length && (ts.zip us).all fun p => p.1.eqv p.2

/-! ## Encodings -/

/-- `s.startswith(prefix)`. -/
def startsWith (start s : String) : Bool := start.toList.isPrefixOf s.toList

/-- `s.encode("utf-8")`. -/
def utf8 (s : String) : List UInt8 := s.toByteArray.data.toList

/-- The `n` low bytes of a number, most significant first. -/
def bigEndian (n v : Nat) : List UInt8 :=
  match n with
  | 0 => []
  | n + 1 => bigEndian n (v / 256) ++ [UInt8.ofNat (v % 256)]

/-- `number.to_bytes(4, "big", signed=False)`. -/
def u32be (v : Nat) : Except StoreErr (List UInt8) :=
  if v < 2 ^ 32 then .ok (bigEndian 4 v) else .error (.overflowError "int too big to convert")

/-- The 6-bit digits of a byte string in base 64, without padding. -/
def base64Digits : List UInt8 → List Nat
  | [] => []
  | [a] => [a.toNat / 4, a.toNat % 4 * 16]
  | [a, b] => [a.toNat / 4, a.toNat % 4 * 16 + b.toNat / 16, b.toNat % 16 * 4]
  | a :: b :: c :: rest =>
      a.toNat / 4 :: (a.toNat % 4 * 16 + b.toNat / 16) :: (b.toNat % 16 * 4 + c.toNat / 64) ::
        c.toNat % 64 :: base64Digits rest

/-- The character of a digit; `c62` and `c63` are the two the alphabets differ in. -/
def base64Char (c62 c63 : Char) (n : Nat) : Char :=
  if n < 26 then Char.ofNat ('A'.toNat + n)
  else if n < 52 then Char.ofNat ('a'.toNat + (n - 26))
  else if n < 62 then Char.ofNat ('0'.toNat + (n - 52))
  else if n = 62 then c62 else c63

/-- `base64.urlsafe_b64encode(raw).decode("ascii").rstrip("=")`. -/
def urlsafeBase64 (raw : List UInt8) : String :=
  String.ofList ((base64Digits raw).map (base64Char '-' '_'))

/-- `base64.b64encode(raw).decode("ascii")`. -/
def base64 (raw : List UInt8) : String :=
  String.ofList ((base64Digits raw).map (base64Char '+' '/') ++
    List.replicate ((3 - raw.length % 3) % 3) '=')

def hexDigit (n : Nat) : Char := "0123456789abcdef".toList.getD (n % 16) '0'

/-- `sha256(payload).hexdigest()`. -/
def hexdigest (raw : List UInt8) : String :=
  String.ofList (raw.flatMap fun b => [hexDigit (b.toNat / 16), hexDigit b.toNat])

/-- `sha256_token`. -/
def sha256Token (sha256 : List UInt8 → List UInt8) (raw : List UInt8) : String :=
  "sha256:" ++ hexdigest (sha256 raw)

/-- The value of a lowercase hexadecimal digit. -/
def hexValue? (c : Char) : Option Nat :=
  if '0' ≤ c ∧ c ≤ '9' then some (c.toNat - '0'.toNat)
  else if 'a' ≤ c ∧ c ≤ 'f' then some (c.toNat - 'a'.toNat + 10)
  else none

/-- `f"0x{bits:016x}"`. -/
def float64Hex (bits : UInt64) : String :=
  String.ofList ('0' :: 'x' :: (List.range 16).map fun i => hexDigit (bits.toNat / 16 ^ (15 - i)))

/-- `FLOAT64_HEX_RE.fullmatch(value)` and, if it matches, `int(value, 0)`. -/
def parseFloat64Hex? (s : String) : Option UInt64 :=
  match s.toList with
  | '0' :: 'x' :: digits =>
      if digits.length = 16 then
        (digits.foldlM (fun acc c => (hexValue? c).map fun d => acc * 16 + d) 0).map UInt64.ofNat
      else none
  | _ => none

/-- `UUID_CANONICAL_RE.fullmatch(value)`: lowercase 8-4-4-4-12 form. -/
def isCanonicalUuid (s : String) : Bool :=
  s.toList.length == 36 && s.toList.zipIdx.all fun (c, i) =>
    if i ∈ [8, 13, 18, 23] then c == '-' else (hexValue? c).isSome

/-- `bytes.fromhex(value.replace("-", ""))` on a canonical UUID. -/
def uuidBytes (s : String) : List UInt8 :=
  let rec pairs : List Nat → List UInt8
    | hi :: lo :: rest => UInt8.ofNat (hi * 16 + lo) :: pairs rest
    | _ => []
  pairs (s.toList.filterMap hexValue?)

/-! ## The values of each tag -/

def requireInt64 (field : String) : Datum → Except StoreErr Int
  | .leaf (.int i) =>
      if -2 ^ 63 ≤ i ∧ i ≤ 2 ^ 63 - 1 then .ok i
      else .error (.valueError s!"{field} is out of int64 range")
  | _ => .error (.valueError s!"{field} must be int64")

def entityRefPrefix : String := "idref_v1:"

def requireString : Datum → Except StoreErr String
  | .leaf (.str s) => .ok s
  | _ => .error (.valueError "string value must be str")

def requireEntityRef : Datum → Except StoreErr String
  | .leaf (.str s) =>
      if startsWith entityRefPrefix s then .ok s
      else .error (.valueError "entity_ref must start with idref_v1:")
  | _ => .error (.valueError "entity_ref value must be str")

/-- `_float64_bits`: the bits of a finite float, or of its hexadecimal form; both zeros are one. -/
def float64Bits : Datum → Except StoreErr UInt64
  | .leaf (.float x) =>
      if x.isFinite then .ok x.positiveZero.bits
      else .error (.valueError "float64 must be finite")
  | .leaf (.str s) =>
      match parseFloat64Hex? s with
      | none => .error (.valueError "float64 hex form must be 0x + 16 lowercase hex digits")
      | some bits =>
          if (F64.mk bits).isFinite then .ok (F64.mk bits).positiveZero.bits
          else .error (.valueError "float64 must be finite")
  | _ => .error (.valueError "float64 value must be float or 0x<16hex> string")

def requireBool : Datum → Except StoreErr Bool
  | .leaf (.bool b) => .ok b
  | _ => .error (.valueError "bool value must be bool")

def requireBytes : Datum → Except StoreErr (List UInt8)
  | .leaf (.bytes b) => .ok b
  | _ => .error (.valueError "bytes value must be bytes-like")

def requireUuid : Datum → Except StoreErr String
  | .leaf (.str s) =>
      if isCanonicalUuid s then .ok s
      else .error (.valueError "uuid must match lowercase 8-4-4-4-12 form")
  | _ => .error (.valueError "uuid value must be canonical lowercase string")

/-- `TAG_CODE_BY_NAME`. -/
def tagCode? : String → Option UInt8
  | "string" => some 1
  | "int" => some 2
  | "float64" => some 3
  | "bool" => some 4
  | "bytes" => some 5
  | "time" => some 6
  | "uuid" => some 7
  | "entity_ref" => some 8
  | _ => none

/-- The cell a term becomes in a view: `_val_atom_for_claim_arg`. -/
def valAtomForClaimArg (tag : String) (value : Datum) : Except StoreErr Rules.Value :=
  match tag with
  | "entity_ref" => (requireEntityRef value).map .str
  | "string" => (requireString value).map .str
  | "int" => (requireInt64 "int" value).map .int
  | "float64" => (float64Bits value).map fun bits => .str (float64Hex bits)
  | "bool" => (requireBool value).map .bool
  | "bytes" => (requireBytes value).map fun raw => .str (urlsafeBase64 raw)
  | "time" => (requireInt64 "time" value).map .int
  | "uuid" =>
      match requireUuid value with
      | .ok s => .ok (.str s)
      | .error _ => .error (.valueError "uuid must match lowercase 8-4-4-4-12 form")
  | tag => .error (.valueError s!"unknown tag: {tag}")

/-- One row of `claim_args_from_rest_terms`: position, cell, tag. -/
structure ArgRow where
  idx : Nat
  valAtom : Rules.Value
  tag : String
  deriving DecidableEq, Repr

/-- `claim_args_from_rest_terms`, counting from `idx`. -/
def claimArgsFrom (idx : Nat) : List Term → Except StoreErr (List ArgRow)
  | [] => .ok []
  | (tag, value) :: terms => do
      let valAtom ← valAtomForClaimArg tag value
      let rows ← claimArgsFrom (idx + 1) terms
      .ok (⟨idx, valAtom, tag⟩ :: rows)

/-- `claim_args_from_rest_terms`. -/
def claimArgsFromRestTerms (terms : List Term) : Except StoreErr (List ArgRow) :=
  claimArgsFrom 0 terms

/-- The bytes of one value: `encode_value_bytes`. -/
def encodeValueBytes (tag : String) (value : Datum) : Except StoreErr (List UInt8) :=
  match tag with
  | "entity_ref" => (requireEntityRef value).map utf8
  | "string" => (requireString value).map utf8
  | "int" => (requireInt64 "int" value).map fun i => utf8 (toString i)
  | "float64" => (float64Bits value).map fun bits => bigEndian 8 bits.toNat
  | "bool" => (requireBool value).map fun b => [if b then 1 else 0]
  | "bytes" => requireBytes value
  | "time" => (requireInt64 "time" value).map fun i => bigEndian 8 (i % 2 ^ 64).toNat
  | "uuid" => (requireUuid value).map uuidBytes
  | tag => .error (.valueError s!"unknown tag: {tag}")

/-- `TUP_V1_PREFIX`. -/
def tupV1Prefix : List UInt8 := utf8 "factpy\x00tup_v1\x00"

/-- One framed term: tag code, payload length, payload. -/
def termBytes (term : Term) : Except StoreErr (List UInt8) :=
  match tagCode? term.1 with
  | none => .error (.valueError s!"unknown tag: {term.1}")
  | some code => do
      let payload ← encodeValueBytes term.1 term.2
      let length ← u32be payload.length
      .ok (code :: length ++ payload)

def termsBytes : List Term → Except StoreErr (List UInt8)
  | [] => .ok []
  | term :: terms => do
      let head ← termBytes term
      let rest ← termsBytes terms
      .ok (head ++ rest)

/-- `canonical_bytes_tup_v1`. -/
def canonicalBytesTupV1 (terms : List Term) : Except StoreErr (List UInt8) := do
  let count ← u32be terms.length
  let body ← termsBytes terms
  .ok (tupV1Prefix ++ count ++ body)

end Protocol

end FactGraph
