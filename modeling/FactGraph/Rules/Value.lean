import Mathlib.Algebra.Order.Ring.Rat
import Mathlib.Data.Finset.Sort
import Mathlib.Data.Rat.Defs
import Mathlib.Data.String.Basic
import FactGraph.Lib.Dict

/-!
# Cells, rows and bindings

The evaluator of `core/rules/where_eval.py` runs on plain Python objects: a row of a view is a
tuple of cells, an environment is a `dict` from variable names to cells. This file fixes the
three things the rest of the rules layer reads off them:

* **Python `==`** (`Value.eqv`), which is coarser than identity: `True == 1 == 1.0`. Joins, the
  column index, `in` filters and the final deduplication all compare with it, so it is kept
  apart from Lean equality throughout.
* **Python `<`** (`Value.lt?`), which is partial: comparing a number with a string raises
  `TypeError`, written `none` here.
* **integer coercion** (`Value.coerceInt`), shared by `_coerce_cmp_int` and
  `_coerce_arith_int`, which differ in the texts of their errors only.

A float is carried as the exact rational it denotes. The schema admits finite floats only, and
comparing a float with an integer is exact in Python, so nothing but arithmetic needs rounding;
what arithmetic there is (`sum`, `mean`) is `FloatOps`.
-/

namespace FactGraph.Rules

/-! ## Errors -/

/-- What the rules layer raises. `whereValidation` is `WhereValidationError`, `astValidation` is
`WhereASTValidationError` before `_adapt_where_ast_error` rewraps it, `ruleCompile` is
`RuleCompileError`; the others are the built-in exceptions nothing here catches. -/
inductive Err where
  | whereValidation (msg : String)
  | astValidation (msg : String)
  | ruleCompile (msg : String)
  | typeError (msg : String)
  | valueError (msg : String)
  | keyError (msg : String)
  | overflowError (msg : String)
  | recursionError (msg : String)
  deriving DecidableEq, Repr

/-! ## Values -/

/-- A cell of a row, or a literal of a clause. -/
inductive Value where
  | none
  | bool (b : Bool)
  | int (i : Int)
  | float (q : Rat)
  | str (s : String)
  | bytes (b : List UInt8)
  deriving DecidableEq, Repr

/-- The number a value compares as: `bool` is a subclass of `int`. -/
def Value.number? : Value → Option Rat
  | .bool b => some (if b then 1 else 0)
  | .int i => some (i : Rat)
  | .float q => some q
  | .none | .str _ | .bytes _ => Option.none

/-- One representative of each class of equal values. -/
def Value.canon (v : Value) : Value :=
  match v.number? with
  | some q => .float q
  | Option.none => v

/-- Python `==` between two cells. -/
def Value.eqv (v w : Value) : Bool := decide (v.canon = w.canon)

@[simp] theorem Value.eqv_iff {v w : Value} : v.eqv w = true ↔ v.canon = w.canon := by
  simp [Value.eqv]

theorem Value.eqv_refl (v : Value) : v.eqv v = true := by simp

theorem Value.eqv_comm (v w : Value) : v.eqv w = w.eqv v := by
  simp only [Value.eqv, eq_comm]

/-- Python `<` between two cells; `none` is the `TypeError` of an unordered pair. -/
def Value.lt? (v w : Value) : Option Bool :=
  match v.number?, w.number? with
  | some a, some b => some (decide (a < b))
  | Option.none, Option.none =>
      match v, w with
      | .str s, .str t => some (decide (s < t))
      | .bytes a, .bytes b => some (decide (a < b))
      | _, _ => Option.none
  | _, _ => Option.none

/-- `isinstance(value, (int, float)) and not isinstance(value, bool)`. -/
def Value.isNumeric : Value → Bool
  | .int _ | .float _ => true
  | .none | .bool _ | .str _ | .bytes _ => false

/-- `_is_literal` on a value that is not a variable: a bool, an int, or a string that does not
start with `$`. -/
def Value.isLiteral : Value → Bool
  | .bool _ | .int _ => true
  | .str s => s.toList.head? ≠ some '$'
  | .none | .float _ | .bytes _ => false

/-! ## Integer coercion -/

/-- The zero of every block of ten decimal digits (Unicode category `Nd`): `\d` matches all of
them and `int()` reads all of them. -/
def digitZeros : List Nat :=
  [0x30, 0x660, 0x6f0, 0x7c0, 0x966, 0x9e6, 0xa66, 0xae6, 0xb66, 0xbe6, 0xc66, 0xce6, 0xd66,
   0xde6, 0xe50, 0xed0, 0xf20, 0x1040, 0x1090, 0x17e0, 0x1810, 0x1946, 0x19d0, 0x1a80, 0x1a90,
   0x1b50, 0x1bb0, 0x1c40, 0x1c50, 0xa620, 0xa8d0, 0xa900, 0xa9d0, 0xa9f0, 0xaa50, 0xabf0,
   0xff10, 0x104a0, 0x10d30, 0x11066, 0x110f0, 0x11136, 0x111d0, 0x112f0, 0x11450, 0x114d0,
   0x11650, 0x116c0, 0x11730, 0x118e0, 0x11950, 0x11c50, 0x11d50, 0x11da0, 0x16a60, 0x16ac0,
   0x16b50, 0x1d7ce, 0x1d7d8, 0x1d7e2, 0x1d7ec, 0x1d7f6, 0x1e140, 0x1e2f0, 0x1e950, 0x1fbf0]

def digit? (c : Char) : Option Nat :=
  (digitZeros.find? fun z => z ≤ c.toNat && c.toNat < z + 10).map fun z => c.toNat - z

/-- The value of a string of digits, `none` if it is empty or has another character. -/
def digits? : List Char → Option Nat
  | [] => Option.none
  | cs => cs.foldlM (fun acc c => (digit? c).map fun d => acc * 10 + d) 0

/-- `_DEC_INT_RE.fullmatch(value)` followed by `int(value)`. -/
def decInt? (s : String) : Option Int :=
  match s.toList with
  | '-' :: cs => (digits? cs).map fun n => -(n : Int)
  | cs => (digits? cs).map fun n => (n : Int)

/-- The texts in which `_coerce_cmp_int` and `_coerce_arith_int` differ. -/
structure CoerceTexts where
  bool : String
  decimal : String
  other : String

def cmpTexts : CoerceTexts where
  bool := "supports only int/time (bool is not allowed)"
  decimal := "supports only int/time decimal values"
  other := "supports only int/time values"

def arithTexts : CoerceTexts where
  bool := "supports only integer operands (bool is not allowed)"
  decimal := "supports only decimal integer operands"
  other := "supports only integer operands"

def Value.coerceInt (texts : CoerceTexts) (kind : String) : Value → Except Err Int
  | .bool _ => .error (.whereValidation s!"{kind} {texts.bool}")
  | .int i => .ok i
  | .str s =>
      match decInt? s with
      | some i => .ok i
      | Option.none => .error (.whereValidation s!"{kind} {texts.decimal}")
  | .none | .float _ | .bytes _ => .error (.whereValidation s!"{kind} {texts.other}")

/-- `_coerce_cmp_int`. -/
def coerceCmpInt (kind : String) (v : Value) : Except Err Int := v.coerceInt cmpTexts kind

/-- `_coerce_arith_int`. -/
def coerceArithInt (kind : String) (v : Value) : Except Err Int := v.coerceInt arithTexts kind

/-! ## Rows, views and float arithmetic -/

/-- One row of a predicate. -/
abbrev Fact := List Value

/-- `view_facts`: the rows of each predicate the view knows. -/
abbrev ViewFacts := String → Option (List Fact)

/-- The float arithmetic the aggregates call. `sum` is `sum()` over numbers at least one of which
is a float (its summation algorithm changed between Python releases), `trueDiv` is the `/` of a
sum by a length. Both may raise `OverflowError`. -/
structure FloatOps where
  sum : List Value → Except Err Rat
  trueDiv : Value → Nat → Except Err Rat

/-- Float arithmetic where nothing has to be rounded. -/
def FloatOps.exact : FloatOps where
  sum values := .ok (values.map fun v => v.number?.getD 0).sum
  trueDiv v n := .ok (v.number?.getD 0 / n)

/-! ## Environments -/

/-- A binding of variables, in insertion order. -/
abbrev Env := List (String × Value)

/-- A set of variables. -/
abbrev Scope := Finset String

/-- `sorted(names)`. -/
def sortScope (names : Scope) : List String := names.sort (· ≤ ·)

/-- `", ".join(sorted(names))`. -/
def joinScope (names : Scope) : String := ", ".intercalate (sortScope names)

end FactGraph.Rules
