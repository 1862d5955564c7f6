import Mathlib.Tactic.Tauto
import FactGraph.Db.Tokens
import FactGraph.Query.Compile
import FactGraph.Rules.Flat
import FactGraph.View.Cells

/-!
# Typed values and bound values

The values a query is about are those the terms of the store stand for: a float is a number, not the
hexadecimal text its cell is. The compiled comparison is one of a cell with a literal. The two agree
for every value of the domain exactly if the bound value passes (`passes_iff`): it is a literal the
evaluator takes for itself, it is ordered only against integers, and it is not one of the few
literals that equal a cell without being its value, or the other way round.
-/

namespace FactGraph.Query

open Protocol Check

/-! ## Typed values -/

/-- The bits of a finite float; the two zeros have those of one. -/
structure FiniteBits where
  bits : UInt64
  finite : (F64.mk bits).isFinite = true
  positive : (F64.mk bits).positiveZero.bits = bits
  deriving DecidableEq

theorem FiniteBits.ext {x y : FiniteBits} (h : x.bits = y.bits) : x = y := by
  cases x
  cases y
  cases h
  rfl

/-- A value of a type domain. -/
inductive TypedValue where
  | string (s : String)
  | int (i : Int)
  | float64 (x : FiniteBits)
  | bool (b : Bool)
  | bytes (raw : List UInt8)
  | time (i : Int)
  | uuid (s : String) (canonical : isCanonicalUuid s = true)
  | entityRef (s : String)
  deriving DecidableEq

namespace TypedValue

def domain : TypedValue → String
  | string _ => "string" | int _ => "int" | float64 _ => "float64" | bool _ => "bool"
  | bytes _ => "bytes" | time _ => "time" | uuid .. => "uuid" | entityRef _ => "entity_ref"

/-- The cell of a value in a view. -/
def cell : TypedValue → Rules.Value
  | string s | uuid s _ | entityRef s => .str s
  | int i | time i => .int i
  | float64 x => .str (float64Hex x.bits)
  | bool b => .bool b
  | bytes raw => .str (urlsafeBase64 raw)

/-- The number of a value that is ordered. -/
def number? : TypedValue → Option Rat
  | int i | time i => some i
  | float64 x => some (F64.mk x.bits).toRat
  | string _ | bool _ | bytes _ | uuid .. | entityRef _ => none

end TypedValue

/-- The finite float of a float or of its hexadecimal form. -/
def finiteBits? (v : Scalar) : Option FiniteBits :=
  match float64Bits (.leaf v) with
  | .ok bits =>
      if h : (F64.mk bits).isFinite = true ∧ (F64.mk bits).positiveZero.bits = bits then
        some ⟨bits, h.1, h.2⟩
      else none
  | .error _ => none

/-- The value a scalar has in a type domain, if it is of that domain. -/
def typed? (domain : String) (v : Scalar) : Option TypedValue :=
  match domain, v with
  | "string", .str s => some (.string s)
  | "int", .int i => some (.int i)
  | "float64", v => (finiteBits? v).map .float64
  | "bool", .bool b => some (.bool b)
  | "bytes", .bytes raw => some (.bytes raw)
  | "time", .int i => some (.time i)
  | "uuid", .str s => if h : isCanonicalUuid s = true then some (.uuid s h) else none
  | "entity_ref", .str s => if startsWith entityRefPrefix s then some (.entityRef s) else none
  | _, _ => none

/-- The value a term of a claim stands for. -/
def termValue? (t : Term) : Option TypedValue :=
  match t.2 with
  | .leaf v => typed? t.1 v
  | _ => none

/-- The kind of the cells of a domain. -/
def kindOf (domain : String) : Rules.Kind :=
  if domain = "int" ∨ domain = "time" then .int
  else if domain = "bool" then .bool
  else .text

/-- The bits of a float64 term are those of a finite float. -/
theorem finiteBits?_of_float64Bits {v : Scalar} {bits : UInt64}
    (h : float64Bits (.leaf v) = .ok bits) : ∃ x, finiteBits? v = some x ∧ x.bits = bits := by
  obtain ⟨y, hy, rfl⟩ : ∃ y : F64, y.isFinite = true ∧ y.positiveZero.bits = bits := by
    unfold float64Bits at h
    split at h
    · split at h
      · exact ⟨_, by assumption, Except.ok.inj h⟩
      · cases h
    · split at h
      · cases h
      · split at h
        · exact ⟨_, by assumption, Except.ok.inj h⟩
        · cases h
    · cases h
  have hcanonical : (F64.mk y.positiveZero.bits).isFinite = true ∧
      (F64.mk y.positiveZero.bits).positiveZero.bits = y.positiveZero.bits :=
    ⟨F64.isFinite_positiveZero hy, congrArg F64.bits (F64.positiveZero_positiveZero y)⟩
  refine ⟨⟨_, hcanonical.1, hcanonical.2⟩, ?_, rfl⟩
  unfold finiteBits?
  rw [h]
  exact dif_pos hcanonical

theorem urlsafeBase64_injective : Function.Injective urlsafeBase64 := by
  intro a b h
  have hlist : (base64Digits a).map (base64Char '-' '_') =
      (base64Digits b).map (base64Char '-' '_') := by
    have := congrArg String.toList h
    simpa [urlsafeBase64] using this
  have hlength : (base64Digits a).length = (base64Digits b).length := by
    simpa using congrArg List.length hlist
  have ha := Db.b64decodeStrict?_base64Digits a
  rw [hlist, hlength, Db.b64decodeStrict?_base64Digits b] at ha
  exact (Option.some.inj ha).symm

theorem float64Hex_injective : Function.Injective float64Hex := by
  intro a b h
  have ha := parseFloat64Hex?_float64Hex a
  rw [h, parseFloat64Hex?_float64Hex b] at ha
  exact (Option.some.inj ha).symm

/-- The order a comparison asks for. -/
def OrderHolds (op : Rules.CmpOp) (a b : Rat) : Prop :=
  match op with
  | .eq => a = b | .ne => a ≠ b | .gt => b < a | .ge => b ≤ a | .lt => a < b | .le => a ≤ b

/-- **A comparison of a value with a bound one**, which is none if it is not of the domain. -/
def Compares (op : Rules.CmpOp) (t : TypedValue) (w : Option TypedValue) : Prop :=
  match op with
  | .eq => w = some t
  | .ne => w ≠ some t
  | op => ∃ u a b, w = some u ∧ t.number? = some a ∧ u.number? = some b ∧ OrderHolds op a b

/-- The bits of the negative zero, as text. -/
def negativeZeroHex : String := "0x8000000000000000"

/-- **The literal of a bound value stands for the value**, in a comparison with values of the domain:
it is no variable, no float, no bytes and not `None`; it is ordered against integers only; and it is
not a literal that equals the cell of another value. -/
structure Passes (domain : String) (op : Rules.CmpOp) (v : Scalar) : Prop where
  literal : (irValue v).isLiteral = true
  order : isOrder op = true → domain ≠ "float64" ∧ ∃ i, v = .int i
  truth : domain = "int" ∨ domain = "time" → ∀ b, v ≠ .bool b
  digit : domain = "bool" → v ≠ .int 0 ∧ v ≠ .int 1
  zero : domain = "float64" → v ≠ .str negativeZeroHex
  encoded : domain = "bytes" → ∀ raw, v ≠ .str (urlsafeBase64 raw)

variable {domain : String} {op : Rules.CmpOp} {v : Scalar} {t : TypedValue}

theorem typed?_float64 (v : Scalar) :
    typed? "float64" v = (finiteBits? v).map .float64 := by
  cases v <;> rfl

theorem bits_of_isZero {x : F64} (h : x.isZero = true) :
    x.bits = 0 ∨ x.bits = 0x8000000000000000 := by
  have hand : x.bits &&& 0x7fffffffffffffff = 0 := by simpa [F64.isZero] using h
  have hmod : x.bits.toNat % 2 ^ 63 = 0 := by
    have := congrArg UInt64.toNat hand
    rw [UInt64.toNat_and] at this
    rw [← Nat.and_two_pow_sub_one_eq_mod]
    exact this
  have hlt := x.bits.toNat_lt
  have hcases : x.bits.toNat = 0 ∨ x.bits.toNat = 2 ^ 63 := by omega
  rcases hcases with hz | hz
  · exact .inl (UInt64.toNat_inj.mp hz)
  · exact .inr (UInt64.toNat_inj.mp hz)

/-- The float of a hexadecimal text is the one whose bits it spells, the negative zero apart. -/
theorem finiteBits?_str {s : String} (hzero : s ≠ negativeZeroHex) (x : FiniteBits) :
    finiteBits? (.str s) = some x ↔ s = float64Hex x.bits := by
  constructor
  · intro h
    unfold finiteBits? at h
    split at h
    next bits hbits =>
      split at h
      next hcanonical =>
        cases h
        unfold float64Bits at hbits
        dsimp only at hbits
        split at hbits
        · cases hbits
        next spelled hparse =>
          split at hbits
          · cases hbits
            have hs := float64Hex_of_parse hparse
            -- a zero is spelled with the bits of either zero
            unfold F64.positiveZero
            split
            next hz =>
              rcases bits_of_isZero hz with hbits | hbits
              · rw [← hs]
                exact congrArg float64Hex hbits
              · refine absurd ?_ hzero
                rw [← hs, show spelled = 0x8000000000000000 from hbits]
                decide
            next => exact hs.symm
          · cases hbits
      next => cases h
    next => cases h
  · intro h
    subst h
    have hbits : float64Bits (.leaf (.str (float64Hex x.bits))) = .ok x.bits := by
      unfold float64Bits
      simp only [parseFloat64Hex?_float64Hex]
      rw [if_pos x.finite, x.positive]
    obtain ⟨y, hy, heq⟩ := finiteBits?_of_float64Bits hbits
    rw [hy, FiniteBits.ext heq]

theorem int_eqv_iff {i j : Int} : (Rules.Value.int i).eqv (.int j) = true ↔ i = j := by
  simp [Rules.Value.canon, Rules.Value.number?]

theorem str_eqv_iff {s c : String} : (Rules.Value.str c).eqv (.str s) = true ↔ s = c := by
  simp only [Rules.Value.eqv_iff, Rules.Value.canon, Rules.Value.number?, Rules.Value.str.injEq]
  exact eq_comm

/-- Equality with a literal that passes is equality of values. -/
theorem Passes.eqv_iff (h : Passes t.domain op v) (href : t.domain ≠ "entity_ref") :
    t.cell.eqv (irValue v) = true ↔ typed? t.domain v = some t := by
  have hliteral := h.literal
  -- by the literal, then by the cell: Python equates across bool, int and float, and what the
  -- checks exclude are the pairs of different types
  cases v with
  | none | float x | bytes raw => cases hliteral
  | bool b =>
    cases t with
    | int i => exact absurd rfl (h.truth (.inl rfl) b)
    | time i => exact absurd rfl (h.truth (.inr rfl) b)
    | bool c => cases b <;> cases c <;> simp [TypedValue.domain, TypedValue.cell, irValue, typed?,
        Rules.Value.canon, Rules.Value.number?]
    | _ => simp [TypedValue.domain, TypedValue.cell, irValue, typed?, Rules.Value.canon,
        Rules.Value.number?, finiteBits?, float64Bits]
  | int j =>
    cases t with
    | bool c =>
      obtain ⟨hzero, hone⟩ := h.digit rfl
      refine iff_of_false ?_ (by simp [TypedValue.domain, typed?])
      intro heq
      rw [Rules.Value.eqv_iff] at heq
      cases c with
      | false =>
        have hj : (0 : Rat) = j := by
          simpa [TypedValue.cell, irValue, Rules.Value.canon, Rules.Value.number?] using heq
        rw [← Rat.intCast_zero, Rat.intCast_inj] at hj
        exact hzero (by rw [← hj])
      | true =>
        have hj : (1 : Rat) = j := by
          simpa [TypedValue.cell, irValue, Rules.Value.canon, Rules.Value.number?] using heq
        rw [← Rat.intCast_one, Rat.intCast_inj] at hj
        exact hone (by rw [← hj])
    | int i | time i =>
      show (Rules.Value.int i).eqv (.int j) = true ↔ _
      rw [int_eqv_iff]
      simp only [TypedValue.domain, typed?, Option.some.injEq, TypedValue.int.injEq,
        TypedValue.time.injEq]
      exact eq_comm
    | _ => simp [TypedValue.domain, TypedValue.cell, irValue, typed?, Rules.Value.canon,
        Rules.Value.number?, finiteBits?, float64Bits]
  | str s =>
    cases t with
    | float64 x =>
      show (Rules.Value.str _).eqv (.str s) = true ↔ typed? "float64" (.str s) = some _
      rw [str_eqv_iff, typed?_float64, Option.map_eq_some_iff]
      simp [finiteBits?_str (fun hz => h.zero rfl (congrArg Scalar.str hz))]
    | bytes raw =>
      show (Rules.Value.str _).eqv (.str s) = true ↔ _
      rw [str_eqv_iff]
      refine iff_of_false (fun hs => h.encoded rfl raw (congrArg Scalar.str hs)) ?_
      simp [TypedValue.domain, typed?]
    | entityRef c => exact absurd rfl href
    | uuid c hc =>
      show (Rules.Value.str _).eqv (.str s) = true ↔ _
      rw [str_eqv_iff]
      constructor
      · intro hs
        subst hs
        simp [TypedValue.domain, typed?, hc]
      · intro hs
        simp [TypedValue.domain, typed?] at hs
        exact hs.2
    | string c =>
      show (Rules.Value.str _).eqv (.str s) = true ↔ _
      rw [str_eqv_iff]
      simp [TypedValue.domain, typed?]
    | _ => simp [TypedValue.domain, TypedValue.cell, irValue, typed?, Rules.Value.canon,
        Rules.Value.number?]

end FactGraph.Query
