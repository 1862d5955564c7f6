import Mathlib.Data.List.Sort
import FactGraph.Protocol.Terms

/-!
# Metadata values

The value codec of `core/store/ledger.py`: a metadata value is checked against its kind and
written as text (`_encode_meta_value`), and read back from the text (`_decode_meta_value`).

The pair of columns `kind` and `value` is a `StoredMeta`: for every kind the value whose canonical
text the column holds. A number is the number its `str` or `repr` denotes, a JSON text is the
document it spells; a pair of columns that disagree cannot be built. Bytes have no JSON form and
are written as an object with one reserved key, which is where reading can fail: an object of that
shape may have come from a `dict` of the caller.
-/

namespace FactGraph.Store

open Protocol

/-- `META_KINDS`. -/
def metaKinds : List String := ["str", "int", "float", "bool", "time", "json"]

/-! ## Floats from integers -/

/-- `float(i)`, rounding half to even; `none` is its `OverflowError`. -/
def floatOfInt? (i : Int) : Option F64 :=
  let n := i.natAbs
  if n = 0 then some ⟨0⟩ else
  let e := n.log2
  -- a significand of 53 bits and the exponent it goes with
  let (m, e) : Nat × Nat :=
    if e ≤ 52 then (n * 2 ^ (52 - e), e) else
    let k := e - 52
    let q := n / 2 ^ k
    let r := n % 2 ^ k
    let q := if r * 2 > 2 ^ k ∨ (r * 2 = 2 ^ k ∧ q % 2 = 1) then q + 1 else q
    if q = 2 ^ 53 then (2 ^ 52, e + 1) else (q, e)
  if e ≥ 1024 then none
  else some ⟨UInt64.ofNat ((if i < 0 then 2 ^ 63 else 0) + (e + 1023) * 2 ^ 52 + (m - 2 ^ 52))⟩

/-! ## JSON documents -/

/-- The leaves of a JSON text. -/
inductive JsonScalar where
  | null
  | bool (b : Bool)
  | int (i : Int)
  | float (x : F64)
  | str (s : String)
  deriving DecidableEq, Repr

abbrev Json := Doc JsonScalar

/-- `_JSON_BYTES_KEY`. -/
def jsonBytesKey : String := "__factpy_bytes_b64__"

def scalarToJsonable : Scalar → Json
  | .none => .leaf .null
  | .bool b => .leaf (.bool b)
  | .int i => .leaf (.int i)
  | .float x => .leaf (.float x)
  | .str s => .leaf (.str s)
  | .bytes b => .obj [(jsonBytesKey, .leaf (.str (base64 b)))]

mutual

/-- `_to_jsonable`. -/
def toJsonable : Datum → Json
  | .leaf s => scalarToJsonable s
  | .arr xs => .arr (toJsonableList xs)
  | .obj fs => .obj (toJsonableFields fs)

def toJsonableList : List Datum → List Json
  | [] => []
  | x :: xs => toJsonable x :: toJsonableList xs

def toJsonableFields : List (String × Datum) → List (String × Json)
  | [] => []
  | (k, x) :: fs => (k, toJsonable x) :: toJsonableFields fs

end

/-- The digit a character of the standard alphabet stands for. -/
def base64Value? (c : Char) : Option Nat :=
  if 'A' ≤ c ∧ c ≤ 'Z' then some (c.toNat - 'A'.toNat)
  else if 'a' ≤ c ∧ c ≤ 'z' then some (c.toNat - 'a'.toNat + 26)
  else if '0' ≤ c ∧ c ≤ '9' then some (c.toNat - '0'.toNat + 52)
  else if c = '+' then some 62 else if c = '/' then some 63 else none

/-- `binascii.a2b_base64` outside strict mode: `quad` digits of the current group are read and
`left` holds their pending bits; characters outside the alphabet are skipped, enough padding ends
the input, and a group left open is the error. -/
def a2bBase64 (quad left pads : Nat) : List Char → Option (List UInt8)
  | [] => if quad = 0 then some [] else none
  | c :: cs =>
      if c = '=' then
        if quad ≥ 2 then
          if quad + (pads + 1) ≥ 4 then some [] else a2bBase64 quad left (pads + 1) cs
        else a2bBase64 quad left pads cs
      else
        match base64Value? c, quad with
        | none, _ => a2bBase64 quad left pads cs
        | some v, 0 => a2bBase64 1 v 0 cs
        | some v, 1 => (a2bBase64 2 (v % 16) 0 cs).map (UInt8.ofNat (left * 4 + v / 16) :: ·)
        | some v, 2 => (a2bBase64 3 (v % 4) 0 cs).map (UInt8.ofNat (left * 16 + v / 4) :: ·)
        | some v, _ => (a2bBase64 0 0 0 cs).map (UInt8.ofNat (left * 64 + v) :: ·)

/-- `base64.b64decode(text.encode("ascii"))`; `none` is its `ValueError`. -/
def b64decode? (text : String) : Option (List UInt8) :=
  if text.toList.all (·.toNat < 128) then a2bBase64 0 0 0 text.toList else none

def scalarFromJsonable : JsonScalar → Scalar
  | .null => .none
  | .bool b => .bool b
  | .int i => .int i
  | .float x => .float x
  | .str s => .str s

mutual

/-- `_from_jsonable`; `none` is the `ValueError` of a malformed bytes object. -/
def fromJsonable? : Json → Option Datum
  | .leaf l => some (.leaf (scalarFromJsonable l))
  | .arr xs => (fromJsonableList? xs).map .arr
  | .obj [(k, .leaf (.str text))] =>
      if k = jsonBytesKey then (b64decode? text).map fun raw => .leaf (.bytes raw)
      else some (.obj [(k, .leaf (.str text))])
  | .obj fs => (fromJsonableFields? fs).map .obj

def fromJsonableList? : List Json → Option (List Datum)
  | [] => some []
  | x :: xs => do
      let y ← fromJsonable? x
      let ys ← fromJsonableList? xs
      some (y :: ys)

def fromJsonableFields? : List (String × Json) → Option (List (String × Datum))
  | [] => some []
  | (k, x) :: fs => do
      let y ← fromJsonable? x
      let gs ← fromJsonableFields? fs
      some ((k, y) :: gs)

end

mutual

/-- `sort_keys=True`: the fields of every object in the order of their keys. -/
def sortKeys : Json → Json
  | .leaf l => .leaf l
  | .arr xs => .arr (sortKeysList xs)
  | .obj fs => .obj ((sortKeysFields fs).insertionSort fun p q => p.1 ≤ q.1)

def sortKeysList : List Json → List Json
  | [] => []
  | x :: xs => sortKeys x :: sortKeysList xs

def sortKeysFields : List (String × Json) → List (String × Json)
  | [] => []
  | (k, x) :: fs => (k, sortKeys x) :: sortKeysFields fs

end

/-- At most so many decimal digits. -/
def hasDigits : Nat → Nat → Bool
  | 0, _ => false
  | k + 1, n => n < 10 || hasDigits k (n / 10)

theorem hasDigits_of_lt {j k n : Nat} (hn : n < 10 ^ (j + 1)) (hk : j < k) :
    hasDigits k n = true := by
  induction k generalizing j n with
  | zero => exact absurd hk (Nat.not_lt_zero j)
  | succ k ih =>
    rw [hasDigits, Bool.or_eq_true, decide_eq_true_eq]
    cases j with
    | zero => exact Or.inl hn
    | succ j =>
      refine Or.inr (ih ?_ (Nat.lt_of_succ_lt_succ hk))
      rw [Nat.pow_succ] at hn
      omega

/-- An integer that Python writes in decimal: with more digits, `str` is a `ValueError`. -/
def hasDecimal (i : Int) : Bool := hasDigits 4300 i.natAbs

/-- An integer of 64 bits has at most nineteen digits. -/
theorem hasDecimal_of_le {i : Int} (h : i.natAbs ≤ 2 ^ 63) : hasDecimal i = true :=
  hasDigits_of_lt (h.trans_lt (by decide : 2 ^ 63 < 10 ^ (18 + 1))) (by decide)

def digitsError : String :=
  "Exceeds the limit (4300 digits) for integer string conversion; " ++
    "use sys.set_int_max_str_digits() to increase the limit"

/-- What is said against a scalar: `allow_nan=False`, and the limit on digits. -/
def JsonScalar.dumpsError? : JsonScalar → Option String
  | .float x =>
      if x.isFinite then none else some "Out of range float values are not JSON compliant"
  | .int i => if hasDecimal i then none else some digitsError
  | .null | .bool _ | .str _ => none

mutual

/-- What `json.dumps` says against a document: it stops at the first scalar it cannot write. -/
def dumpsError? : Json → Option String
  | .leaf l => l.dumpsError?
  | .arr xs => dumpsErrorList? xs
  | .obj fs => dumpsErrorFields? fs

def dumpsErrorList? : List Json → Option String
  | [] => none
  | x :: xs => (dumpsError? x).or (dumpsErrorList? xs)

def dumpsErrorFields? : List (String × Json) → Option String
  | [] => none
  | (_, x) :: fs => (dumpsError? x).or (dumpsErrorFields? fs)

end

/-- `json.dumps` of a value, its keys sorted; the document stands for the text. -/
def dumpsSorted (value : Datum) : Except StoreErr Json :=
  let doc := sortKeys (toJsonable value)
  match dumpsError? doc with
  | none => .ok doc
  | some message => .error (.valueError message)

/-! ## The columns `kind` and `value` -/

/-- A non-null pair of columns. A float is finite and not `-0.0`; the document of a JSON text has
its keys sorted. -/
inductive StoredMeta where
  | str (s : String)
  | int (i : Int)
  | float (x : F64)
  | bool (b : Bool)
  | time (i : Int)
  | json (d : Json)
  deriving DecidableEq

/-- The column `kind`. -/
def StoredMeta.kind : StoredMeta → String
  | .str _ => "str"
  | .int _ => "int"
  | .float _ => "float"
  | .bool _ => "bool"
  | .time _ => "time"
  | .json _ => "json"

/-- `_encode_meta_value`. -/
def encodeMetaValue (kind : String) (value : Datum) : Except StoreErr StoredMeta :=
  match kind with
  | "str" =>
      match value with
      | .leaf (.str s) => .ok (.str s)
      | _ => .error (.valueError "meta str value must be str")
  | "int" =>
      match value with
      | .leaf (.int i) => if hasDecimal i then .ok (.int i) else .error (.valueError digitsError)
      | _ => .error (.valueError "meta int value must be int")
  | "time" =>
      match value with
      | .leaf (.int i) => if hasDecimal i then .ok (.time i) else .error (.valueError digitsError)
      | _ => .error (.valueError "meta time value must be int")
  | "float" =>
      match value with
      | .leaf (.int i) =>
          match floatOfInt? i with
          | some x => .ok (.float x.positiveZero)
          | none => .error (.overflowError "int too large to convert to float")
      | .leaf (.float x) =>
          if x.isFinite then .ok (.float x.positiveZero)
          else .error (.valueError "meta float value must be finite")
      | _ => .error (.valueError "meta float value must be numeric")
  | "bool" =>
      match value with
      | .leaf (.bool b) => .ok (.bool b)
      | _ => .error (.valueError "meta bool value must be bool")
  | "json" => (dumpsSorted value).map .json
  | kind => .error (.valueError s!"unsupported meta kind: {kind}")

/-- A time of the clock is stored. -/
theorem encodeMetaValue_clock (t : Int64) :
    encodeMetaValue "time" (.leaf (.int t.toInt)) = .ok (.time t.toInt) := by
  have hdecimal : hasDecimal t.toInt = true := by
    have hlow := t.le_toInt
    have hhigh := t.toInt_lt
    apply hasDecimal_of_le
    omega
  simp only [encodeMetaValue, hdecimal, if_true]

/-- `_decode_meta_value` on a pair that is not null. -/
def decodeMetaValue : StoredMeta → Except StoreErr Datum
  | .str s => .ok (.leaf (.str s))
  | .int i | .time i => .ok (.leaf (.int i))
  | .float x => .ok (.leaf (.float x.positiveZero))
  | .bool b => .ok (.leaf (.bool b))
  | .json d =>
      match fromJsonable? d with
      | some value => .ok value
      | none => .error (.ledgerFormat "invalid claim_meta 'json' value encoding")

/-- Bytes written as JSON cannot be told from a `dict` of the caller that looks like them; one whose
text is not base 64 cannot be read back at all. -/
example : (encodeMetaValue "json" (.obj [(jsonBytesKey, .leaf (.str "A"))])).bind decodeMetaValue =
    .error (.ledgerFormat "invalid claim_meta 'json' value encoding") := by decide

end FactGraph.Store
