import FactGraph.Codec.Scalars
import FactGraph.Lib.Decimals
import FactGraph.Scenario.Values

/-!
# Canonical decimals

`canonical_decimal_v2` of `application/protocol/scenario_v2.py`: a number as a text without an
exponent and without trailing zeros.

It goes through `Decimal.normalize`, which rounds to the precision of the decimal context. So the text
denotes the number that was passed if that number has no more significant digits than the context
keeps, and two of more digits may have one text. What is returned is in any case its own canonical
form. A float is the number its `repr` spells.
-/

namespace FactGraph.Scenario.V2

open Protocol Check Decimals

/-- What `canonical_decimal_v2` takes from the interpreter: `repr` of a float, the decimal digits
Unicode has besides those of ASCII, and the precision of the decimal context, 28 unless set. -/
structure Host where
  floatRepr : F64 → String
  decimalDigit : Char → Option (Fin 10)
  prec : Nat
  prec_pos : 0 < prec

/-- What a caller may pass. The payload of a `nan` is zero if it has none. -/
inductive Input where
  | bool (b : Bool)
  | decimal (d : Decimal)
  | infinity (negative : Bool)
  | nan (negative signaling : Bool) (payload : Nat)
  | int (i : Int)
  | float (x : F64)
  | str (s : String)
  | other

/-- `MAX_DECIMAL_V2_CHARS`. -/
def maxDecimalV2Chars : Nat := 64

/-- `MAX_DECIMAL_V2_SCALE`. -/
def maxDecimalV2Scale : Nat := 24

def signText (negative : Bool) : String := if negative then "-" else ""

/-- The text `canonical_decimal_v2` reads. -/
def rawText (host : Host) (fieldName : String) : Input → Except Fault String
  | .bool _ => .error (.protocolShape s!"{fieldName} must be finite decimal, not bool")
  | .decimal d => .ok (String.ofList (fixed d))
  | .infinity negative => .ok (signText negative ++ "Infinity")
  | .nan negative signaling payload =>
      .ok (signText negative ++ (if signaling then "sNaN" else "NaN") ++
        if payload = 0 then "" else toString payload)
  | .int i => .ok (toString i)
  | .float x =>
      if x.isFinite then .ok (host.floatRepr x)
      else .error (.protocolShape s!"{fieldName} must be finite decimal")
  | .str s => .ok s
  | .other => .error (.protocolShape s!"{fieldName} must be finite decimal")

/-- A character of a numeral, in ASCII. -/
def asciiOf (host : Host) (c : Char) : Option Char :=
  if 0 < c.toNat ∧ c.toNat ≤ 127 then some c
  else if Codec.isPySpace c then some ' '
  else (host.decimalDigit c).map fun d => Nat.digitChar d

/-- The characters `Decimal` reads of a text: without spaces around it, without underscores, in
ASCII. Nothing is left of a text that has another character. -/
def numericAsAscii (host : Host) (s : String) : List Char :=
  (((Codec.strip s.toList).filter (· ≠ '_')).mapM (asciiOf host)).getD []

/-- `Decimal(text)`, if that is a finite number and the text has no exponent. -/
def decimal? (host : Host) (s : String) : Option Decimal := read? (numericAsAscii host s)

/-- `format(parsed.normalize(), "f")` and what is done to its sign and its point. -/
def canonicalText (host : Host) (parsed : Decimal) : List Char :=
  let canonical :=
    if parsed.coeff = 0 then ['0']
    else
      let text := fixed (normalize host.prec parsed)
      if ['-', '0'] <+: text ∧ (decimal? host (String.ofList text)).any (·.coeff = 0) = true then
        ['0']
      else text
  let canonical := if ['.'] <+: canonical then '0' :: canonical else canonical
  if ['-', '.'] <+: canonical then '-' :: '0' :: canonical.tail else canonical

/-- A text `canonical_decimal_v2` tries to read. -/
def isBounded (raw : String) : Bool :=
  raw ≠ "" && raw.length ≤ maxDecimalV2Chars && raw.toList.all (fun c => c ≠ 'e' && c ≠ 'E') &&
    raw.toList.head? ≠ some '+'

/-- `canonical_decimal_v2`. -/
def canonicalDecimalV2 (host : Host) (fieldName : String) (value : Input) : Except Fault String := do
  let raw ← rawText host fieldName value
  require (isBounded raw) (.protocolShape s!"{fieldName} must be a bounded non-exponent decimal")
  match decimal? host raw with
  | none => .error (.protocolShape s!"{fieldName} must be finite decimal")
  | some parsed => do
      require (-(maxDecimalV2Scale : Int) ≤ parsed.exp)
        (.protocolShape s!"{fieldName} exceeds decimal scale cap")
      let canonical := canonicalText host parsed
      require (canonical.length ≤ maxDecimalV2Chars)
        (.protocolShape s!"{fieldName} exceeds decimal wire cap")
      .ok (String.ofList canonical)

/-- The number an input denotes. -/
def number? (host : Host) : Input → Option ℚ
  | .decimal d => some d.toRat
  | .int i => some i
  | .float x => (decimal? host (host.floatRepr x)).map Decimal.toRat
  | .str s => (decimal? host s).map Decimal.toRat
  | _ => none

theorem number?_str (host : Host) (s : String) :
    number? host (.str s) = (decimal? host s).map Decimal.toRat := rfl

theorem number?_float (host : Host) (x : F64) :
    number? host (.float x) = (decimal? host (host.floatRepr x)).map Decimal.toRat := rfl

/-- The number of an input has no more significant digits than the context keeps. -/
def FitsContext (host : Host) (v : Input) : Prop := ∃ q, number? host v = some q ∧ Fits host.prec q

/-! ## Reading a text of digits -/

/-- A character `Decimal` reads as it is. -/
def IsPlain (c : Char) : Prop :=
  Codec.isPySpace c = false ∧ c ≠ '_' ∧ 0 < c.toNat ∧ c.toNat ≤ 127

instance (c : Char) : Decidable (IsPlain c) := inferInstanceAs (Decidable (_ ∧ _))

theorem isPlain_of_isDigit {c : Char} (h : c.isDigit = true) : IsPlain c := by
  have hrange : 48 ≤ c.toNat ∧ c.toNat ≤ 57 := by
    simp only [Char.isDigit, Bool.and_eq_true, decide_eq_true_eq] at h
    exact ⟨UInt32.le_iff_toNat_le.mp h.1, UInt32.le_iff_toNat_le.mp h.2⟩
  obtain ⟨hspace, hunderscore⟩ := Codec.isDigit_spec h
  exact ⟨hspace, hunderscore, by omega, by omega⟩

theorem isPlain_of_mem_fixed {d : Decimal} {c : Char} (h : c ∈ fixed d) : IsPlain c := by
  rcases mem_fixed h with h | rfl | rfl
  · exact isPlain_of_isDigit h
  · decide
  · decide

theorem mapM_asciiOf (host : Host) {cs : List Char} (h : ∀ c ∈ cs, IsPlain c) :
    cs.mapM (asciiOf host) = some cs := by
  induction cs with
  | nil => rfl
  | cons c cs ih =>
    have hc : asciiOf host c = some c := if_pos (h c List.mem_cons_self).2.2
    rw [List.mapM_cons, hc, ih fun d hd => h d (List.mem_cons_of_mem c hd)]
    rfl

theorem numericAsAscii_of_plain (host : Host) {cs : List Char} (h : ∀ c ∈ cs, IsPlain c) :
    numericAsAscii host (String.ofList cs) = cs := by
  have hfilter : cs.filter (· ≠ '_') = cs := by
    apply List.filter_eq_self.mpr
    intro c hc
    exact decide_eq_true (h c hc).2.1
  unfold numericAsAscii
  rw [String.toList_ofList, Codec.strip_of_plain fun c hc => (h c hc).1, hfilter,
    mapM_asciiOf host h]
  rfl

theorem decimal?_fixed (host : Host) (d : Decimal) :
    decimal? host (String.ofList (fixed d)) =
      some ⟨d.negative, fixedCoeff d.coeff d.exp, min d.exp 0⟩ := by
  unfold decimal?
  rw [numericAsAscii_of_plain host fun c hc => isPlain_of_mem_fixed hc]
  exact read?_fixed d

/-- The text of what is no finite number is not read. -/
theorem decimal?_letter (host : Host) {negative : Bool} {c : Char} {cs : List Char}
    (hdigit : c.isDigit = false) (hc : c ≠ '.' ∧ c ≠ '-' ∧ c ≠ '+') (hplain : ∀ d ∈ c :: cs, IsPlain d) :
    decimal? host (signText negative ++ String.ofList (c :: cs)) = none := by
  have hletter := @readUnsigned?_letter c cs hdigit hc.1
  cases negative with
  | false =>
    have htext : signText false ++ String.ofList (c :: cs) = String.ofList (c :: cs) := by
      simp [signText]
    unfold decimal?
    rw [htext, numericAsAscii_of_plain host hplain]
    unfold read?
    split
    next h => exact absurd (List.cons.inj h).1 hc.2.1
    next h => exact absurd (List.cons.inj h).1 hc.2.2
    next => rw [hletter, Option.map_none]
  | true =>
    have htext : signText true ++ String.ofList (c :: cs) = String.ofList ('-' :: c :: cs) := by
      apply String.toList_inj.mp
      simp [signText]
    unfold decimal?
    rw [htext, numericAsAscii_of_plain host]
    · show (readUnsigned? (c :: cs)).map (fun p => Decimal.mk true p.1 (-(p.2 : Int))) = none
      rw [hletter, Option.map_none]
    · intro d hd
      rcases List.mem_cons.mp hd with rfl | hd
      · decide
      · exact hplain d hd

theorem decimal?_nan (host : Host) (negative signaling : Bool) (payload : Nat) :
    decimal? host (signText negative ++ (if signaling then "sNaN" else "NaN") ++
      if payload = 0 then "" else toString payload) = none := by
  have hpayload : ∀ d ∈ (if payload = 0 then "" else toString payload).toList, IsPlain d := by
    intro d hd
    split_ifs at hd
    · simp at hd
    · rw [Nat.toString_eq_ofList_toDigits, String.toList_ofList] at hd
      exact isPlain_of_isDigit (isDigit_of_mem_toDigits hd)
  rw [String.append_assoc]
  generalize (if payload = 0 then "" else toString payload) = digits at hpayload ⊢
  cases signaling with
  | false =>
    have htext : (if false = true then "sNaN" else "NaN") ++ digits =
        String.ofList ('N' :: ('a' :: 'N' :: digits.toList)) := by
      apply String.toList_inj.mp
      simp
    rw [htext]
    apply decimal?_letter host rfl (by decide)
    intro d hd
    simp only [List.mem_cons] at hd
    rcases hd with rfl | rfl | rfl | hd
    · decide
    · decide
    · decide
    · exact hpayload d hd
  | true =>
    have htext : (if true = true then "sNaN" else "NaN") ++ digits =
        String.ofList ('s' :: ('N' :: 'a' :: 'N' :: digits.toList)) := by
      apply String.toList_inj.mp
      simp
    rw [htext]
    apply decimal?_letter host rfl (by decide)
    intro d hd
    simp only [List.mem_cons] at hd
    rcases hd with rfl | rfl | rfl | rfl | hd
    · decide
    · decide
    · decide
    · decide
    · exact hpayload d hd

/-- An integer is written as the decimal it is. -/
theorem toList_toString_int (i : Int) :
    (toString i).toList = fixed ⟨decide (i < 0), i.natAbs, 0⟩ := by
  have hbody (n : Nat) : fixedBody n 0 = Nat.toDigits 10 n := by
    show (if n = 0 then ['0'] else Nat.toDigits 10 n ++ List.replicate 0 '0') = _
    split_ifs with hn
    · rw [hn]
      rfl
    · rw [List.replicate_zero, List.append_nil]
  unfold fixed
  cases i with
  | ofNat n =>
    rw [if_neg (by simp), hbody]
    simp [Int.toString_eq_repr, Int.repr, Nat.repr]
  | negSucc n =>
    rw [if_pos (by simp), hbody]
    simp [Int.toString_eq_repr, Int.repr, Nat.repr]

theorem toRat_int (i : Int) : (⟨decide (i < 0), i.natAbs, 0⟩ : Decimal).toRat = i := by
  unfold Decimal.toRat Decimal.sign
  dsimp only
  rw [zpow_zero, mul_one]
  cases i with
  | ofNat n => simp
  | negSucc n =>
    rw [if_pos (decide_eq_true (Int.negSucc_lt_zero n)), Int.natAbs_negSucc, Int.negSucc_eq]
    push_cast
    ring

/-- The text that is read denotes the number that was passed. -/
theorem number_rawText {host : Host} {fieldName : String} {v : Input} {raw : String} {d : Decimal}
    (hraw : rawText host fieldName v = .ok raw) (hread : decimal? host raw = some d) :
    number? host v = some d.toRat := by
  cases v with
  | bool b => cases hraw
  | decimal x =>
    cases hraw
    rw [decimal?_fixed, Option.some.injEq] at hread
    rw [← hread, toRat_fixed]
    rfl
  | infinity negative =>
    cases hraw
    have hplain : ∀ d ∈ 'I' :: ['n', 'f', 'i', 'n', 'i', 't', 'y'], IsPlain d := by
      simp only [List.forall_mem_cons, List.not_mem_nil, false_implies, implies_true, and_true]
      decide
    have hletter := @decimal?_letter host negative 'I' ['n', 'f', 'i', 'n', 'i', 't', 'y'] rfl
      (by decide) hplain
    rw [show "Infinity" = String.ofList ['I', 'n', 'f', 'i', 'n', 'i', 't', 'y'] from rfl,
      hletter] at hread
    cases hread
  | nan negative signaling payload =>
    cases hraw
    rw [decimal?_nan] at hread
    cases hread
  | int i =>
    cases hraw
    rw [← String.ofList_toList (s := toString i), toList_toString_int, decimal?_fixed,
      Option.some.injEq] at hread
    rw [← hread, toRat_fixed, toRat_int]
    rfl
  | float x =>
    unfold rawText at hraw
    dsimp only at hraw
    split_ifs at hraw
    cases hraw
    rw [number?_float, hread]
    rfl
  | str s =>
    cases hraw
    rw [number?_str, hread]
    rfl
  | other => cases hraw

/-! ## The canonical text -/

/-- The text of a decimal that is not zero needs no mending. -/
theorem canonicalText_of_ne_zero (host : Host) {d : Decimal} (hd : d.coeff ≠ 0) :
    canonicalText host d = fixed (normalize host.prec d) := by
  obtain ⟨hlast, -, -⟩ := normalize_spec host.prec_pos hd
  obtain ⟨c, cs, hcs, hc⟩ :=
    fixedBody_head (normalize host.prec d).coeff (normalize host.prec d).exp
  have hpoint : c ≠ '.' := by
    intro h
    subst h
    cases hc
  have hminus : c ≠ '-' := by
    intro h
    subst h
    cases hc
  have hcoeff : fixedCoeff (normalize host.prec d).coeff (normalize host.prec d).exp ≠ 0 := by
    intro h
    rcases Nat.mul_eq_zero.mp h with h | h
    · rw [h] at hlast
      exact hlast rfl
    · exact absurd h (by positivity)
  have hread : ((decimal? host (String.ofList (fixed (normalize host.prec d)))).any
      (·.coeff = 0)) = false := by
    rw [decimal?_fixed]
    simpa using hcoeff
  have hfirst : ¬['.'] <+: fixed (normalize host.prec d) := by
    unfold fixed
    split_ifs
    · simp
    · rw [hcs]
      simpa using Ne.symm hpoint
  have hsecond : ¬['-', '.'] <+: fixed (normalize host.prec d) := by
    unfold fixed
    split_ifs
    · rw [hcs]
      simpa using Ne.symm hpoint
    · rw [hcs]
      simp [Ne.symm hminus]
  unfold canonicalText
  rw [if_neg hd]
  dsimp only
  have hzero : ¬(['-', '0'] <+: fixed (normalize host.prec d) ∧
      ((decimal? host (String.ofList (fixed (normalize host.prec d)))).any (·.coeff = 0)) = true) := by
    rw [hread]
    simp
  rw [if_neg hzero, if_neg hfirst, if_neg hsecond]

theorem canonicalText_zero (host : Host) {d : Decimal} (hd : d.coeff = 0) :
    canonicalText host d = ['0'] := by
  unfold canonicalText
  rw [if_pos hd]
  rfl

/-- What `canonical_decimal_v2` accepts, and what it returns. -/
theorem canonicalDecimalV2_ok_iff {host : Host} {fieldName : String} {v : Input} {s : String} :
    canonicalDecimalV2 host fieldName v = .ok s ↔
      ∃ raw d, rawText host fieldName v = .ok raw ∧ isBounded raw = true ∧
        decimal? host raw = some d ∧ -(maxDecimalV2Scale : Int) ≤ d.exp ∧
        (canonicalText host d).length ≤ maxDecimalV2Chars ∧
        s = String.ofList (canonicalText host d) := by
  unfold canonicalDecimalV2
  constructor
  · intro h
    obtain ⟨raw, hraw, h⟩ := bind_ok_iff.mp h
    obtain ⟨hbounded, h⟩ := bind_unit_ok_iff.mp h
    split at h
    next => cases h
    next d hd =>
      obtain ⟨hscale, h⟩ := bind_unit_ok_iff.mp h
      obtain ⟨hwire, h⟩ := bind_unit_ok_iff.mp h
      cases h
      exact ⟨raw, d, hraw, require_ok_iff.mp hbounded, hd, by simpa using hscale,
        by simpa using hwire, rfl⟩
  · intro ⟨raw, d, hraw, hbounded, hd, hscale, hwire, hs⟩
    rw [hraw, ok_bind, require_of_true hbounded, ok_bind, hd]
    dsimp only
    rw [require_of_true (by simpa using hscale), ok_bind, require_of_true (by simpa using hwire),
      ok_bind, hs]

/-- The number of a canonical text: that of the decimal, rounded. -/
theorem number_canonicalText (host : Host) (d : Decimal) :
    number? host (.str (String.ofList (canonicalText host d))) =
      some (if d.coeff = 0 then 0 else (normalize host.prec d).toRat) := by
  rw [number?_str]
  split_ifs with hd
  · rw [canonicalText_zero host hd]
    have hfixed : fixed ⟨false, 0, 0⟩ = ['0'] := rfl
    rw [← hfixed, decimal?_fixed, Option.map_some, toRat_fixed]
    simp [Decimal.toRat]
  · rw [canonicalText_of_ne_zero host hd, decimal?_fixed, Option.map_some, toRat_fixed]

/-- A canonical text has a canonical text: itself. -/
theorem canonicalText_canonical (host : Host) {d d' : Decimal}
    (h : decimal? host (String.ofList (canonicalText host d)) = some d') :
    canonicalText host d' = canonicalText host d := by
  by_cases hd : d.coeff = 0
  · rw [canonicalText_zero host hd] at h ⊢
    have hfixed : fixed ⟨false, 0, 0⟩ = ['0'] := rfl
    rw [← hfixed, decimal?_fixed, Option.some.injEq] at h
    apply canonicalText_zero
    rw [← h]
    rfl
  · obtain ⟨hlast, -, -⟩ := normalize_spec host.prec_pos hd
    rw [canonicalText_of_ne_zero host hd] at h ⊢
    rw [decimal?_fixed, Option.some.injEq] at h
    have hrat : d'.toRat = (normalize host.prec d).toRat := by
      rw [← h]
      exact toRat_fixed _
    have hd' : d'.coeff ≠ 0 := by
      intro hzero
      rw [← Decimal.toRat_eq_zero_iff, hrat, Decimal.toRat_eq_zero_iff] at hzero
      rw [hzero] at hlast
      exact hlast rfl
    -- what fits is not rounded again
    have hfits : Fits host.prec d'.toRat := by
      rw [hrat]
      exact fits_normalize host.prec_pos hd
    have hsame : normalize host.prec d' = normalize host.prec d := by
      apply eq_of_toRat (normalize_spec host.prec_pos hd').1 hlast
      rw [(toRat_normalize_iff host.prec_pos hd').mpr hfits, hrat]
    rw [canonicalText_of_ne_zero host hd', hsame]

theorem isBounded_canonicalText (host : Host) (d : Decimal)
    (h : (canonicalText host d).length ≤ maxDecimalV2Chars) :
    isBounded (String.ofList (canonicalText host d)) = true := by
  obtain ⟨x, hx⟩ : ∃ x, canonicalText host d = fixed x := by
    by_cases hd : d.coeff = 0
    · exact ⟨⟨false, 0, 0⟩, canonicalText_zero host hd⟩
    · exact ⟨_, canonicalText_of_ne_zero host hd⟩
  rw [hx] at h ⊢
  have hplain : ∀ c ∈ fixed x, c ≠ 'e' ∧ c ≠ 'E' ∧ c ≠ '+' := by
    intro c hc
    rcases mem_fixed hc with hdigit | rfl | rfl
    · refine ⟨?_, ?_, ?_⟩
      all_goals
        intro h
        subst h
        cases hdigit
    · decide
    · decide
  obtain ⟨c, cs, hcs⟩ : ∃ c cs, fixed x = c :: cs := by
    obtain ⟨c, cs, hcs, -⟩ := fixedBody_head x.coeff x.exp
    unfold fixed
    split_ifs
    · exact ⟨_, _, rfl⟩
    · exact ⟨c, cs, hcs⟩
  unfold isBounded
  simp only [Bool.and_eq_true, decide_eq_true_eq, String.toList_ofList, List.all_eq_true,
    ne_eq, String.length_ofList]
  refine ⟨⟨⟨?_, h⟩, ?_⟩, ?_⟩
  · intro hnil
    have hempty := congrArg String.toList hnil
    rw [String.toList_ofList, hcs] at hempty
    cases hempty
  · intro c hc
    exact ⟨(hplain c hc).1, (hplain c hc).2.1⟩
  · rw [hcs, List.head?_cons, Option.some.injEq]
    exact (hplain c (by rw [hcs]; exact List.mem_cons_self)).2.2

/-- The scale of a canonical text is no larger than that of the text it was made of. -/
theorem scale_canonicalText (host : Host) {d d' : Decimal} (hscale : -(maxDecimalV2Scale : Int) ≤ d.exp)
    (h : decimal? host (String.ofList (canonicalText host d)) = some d') :
    -(maxDecimalV2Scale : Int) ≤ d'.exp := by
  by_cases hd : d.coeff = 0
  · rw [canonicalText_zero host hd] at h
    have hfixed : fixed ⟨false, 0, 0⟩ = ['0'] := rfl
    rw [← hfixed, decimal?_fixed, Option.some.injEq] at h
    rw [← h]
    decide
  · obtain ⟨-, -, hexp⟩ := normalize_spec host.prec_pos hd
    rw [canonicalText_of_ne_zero host hd, decimal?_fixed, Option.some.injEq] at h
    rw [← h]
    dsimp only
    unfold maxDecimalV2Scale at hscale ⊢
    omega

/-- What is returned is its own canonical form. -/
theorem canonicalDecimalV2_idempotent {host : Host} {fieldName : String} {v : Input} {s : String}
    (h : canonicalDecimalV2 host fieldName v = .ok s) :
    canonicalDecimalV2 host fieldName (.str s) = .ok s := by
  obtain ⟨raw, d, -, -, -, hscale, hwire, rfl⟩ := canonicalDecimalV2_ok_iff.mp h
  obtain ⟨d', hd'⟩ : ∃ d', decimal? host (String.ofList (canonicalText host d)) = some d' := by
    have hnumber := number_canonicalText host d
    cases hread : decimal? host (String.ofList (canonicalText host d)) with
    | none =>
      rw [number?_str, hread] at hnumber
      cases hnumber
    | some d' => exact ⟨d', rfl⟩
  have hsame := canonicalText_canonical host hd'
  exact canonicalDecimalV2_ok_iff.mpr ⟨_, d', rfl, isBounded_canonicalText host d hwire, hd',
    scale_canonicalText host hscale hd', by rw [hsame]; exact hwire, by rw [hsame]⟩

/-- The text that is returned denotes the number that was passed. -/
def Exact (host : Host) (v : Input) (s : String) : Prop := number? host (.str s) = number? host v

theorem exact_iff {host : Host} {fieldName : String} {v : Input} {s : String}
    (h : canonicalDecimalV2 host fieldName v = .ok s) : Exact host v s ↔ FitsContext host v := by
  obtain ⟨raw, d, hraw, -, hd, -, -, rfl⟩ := canonicalDecimalV2_ok_iff.mp h
  have hnumber := number_rawText hraw hd
  unfold Exact FitsContext
  rw [number_canonicalText, hnumber, Option.some.injEq]
  have hfits : (∃ q, some d.toRat = some q ∧ Fits host.prec q) ↔ Fits host.prec d.toRat := by
    constructor
    · intro ⟨q, hq, hfits⟩
      rwa [Option.some.inj hq]
    · intro hfits
      exact ⟨_, rfl, hfits⟩
  rw [hfits]
  split_ifs with hzero
  · rw [Decimal.toRat_eq_zero_iff.mpr hzero]
    refine iff_of_true rfl ⟨0, 0, by positivity, by simp⟩
  · exact toRat_normalize_iff host.prec_pos hzero

/-- Numbers that are equal have one text. -/
theorem eq_of_number {host : Host} {fieldName fieldName' : String} {v v' : Input} {s s' : String}
    (h : canonicalDecimalV2 host fieldName v = .ok s)
    (h' : canonicalDecimalV2 host fieldName' v' = .ok s')
    (hnumber : number? host (.str s) = number? host (.str s')) : s = s' := by
  obtain ⟨raw, d, -, -, -, -, -, rfl⟩ := canonicalDecimalV2_ok_iff.mp h
  obtain ⟨raw', d', -, -, -, -, -, rfl⟩ := canonicalDecimalV2_ok_iff.mp h'
  rw [number_canonicalText, number_canonicalText, Option.some.injEq] at hnumber
  congr 1
  have hne {x : Decimal} (hx : x.coeff ≠ 0) : (normalize host.prec x).toRat ≠ 0 := by
    intro hzero
    have hlast := (normalize_spec host.prec_pos hx).1
    rw [Decimal.toRat_eq_zero_iff.mp hzero] at hlast
    exact hlast rfl
  by_cases hd : d.coeff = 0
  · by_cases hd' : d'.coeff = 0
    · rw [canonicalText_zero host hd, canonicalText_zero host hd']
    · rw [if_pos hd, if_neg hd'] at hnumber
      exact absurd hnumber.symm (hne hd')
  · by_cases hd' : d'.coeff = 0
    · rw [if_neg hd, if_pos hd'] at hnumber
      exact absurd hnumber (hne hd)
    · rw [if_neg hd, if_neg hd'] at hnumber
      rw [canonicalText_of_ne_zero host hd, canonicalText_of_ne_zero host hd',
        eq_of_toRat (normalize_spec host.prec_pos hd).1 (normalize_spec host.prec_pos hd').1 hnumber]

/-- **When the form is canonical.** For two inputs that are accepted, each text denotes the number that
was passed and the texts are equal exactly if the numbers are, if and only if neither number has more
significant digits than the context keeps. What is returned is its own canonical form in any case. -/
theorem canonicalDecimalV2_canonical_iff {host : Host} {fieldName fieldName' : String} {v v' : Input}
    {s s' : String} (h : canonicalDecimalV2 host fieldName v = .ok s)
    (h' : canonicalDecimalV2 host fieldName' v' = .ok s') :
    canonicalDecimalV2 host fieldName (.str s) = .ok s ∧
      ((Exact host v s ∧ Exact host v' s' ∧ (s = s' ↔ number? host v = number? host v')) ↔
        FitsContext host v ∧ FitsContext host v') := by
  refine ⟨canonicalDecimalV2_idempotent h, ?_⟩
  constructor
  · intro ⟨hexact, hexact', _⟩
    exact ⟨(exact_iff h).mp hexact, (exact_iff h').mp hexact'⟩
  · intro ⟨hfits, hfits'⟩
    have hexact := (exact_iff h).mpr hfits
    have hexact' := (exact_iff h').mpr hfits'
    refine ⟨hexact, hexact', ?_⟩
    rw [← hexact, ← hexact']
    constructor
    · intro heq
      rw [heq]
    · exact eq_of_number h h'

/-- An interpreter with the default precision. -/
def asciiHost : Host := ⟨Db.bitsRepr, fun _ => none, 28, by norm_num⟩

/-- A half, in two spellings. -/
theorem half_canonical :
    canonicalDecimalV2 asciiHost "bound" (.str "0.5") = .ok "0.5" ∧
      Exact asciiHost (.str " 0.50") "0.5" ∧ Exact asciiHost (.decimal ⟨false, 5, -1⟩) "0.5" := by
  have hfits : FitsContext asciiHost (.str " 0.50") :=
    ⟨_, rfl, 50, -2, by decide, Decimal.abs_toRat ⟨false, 50, -2⟩⟩
  have hfits' : FitsContext asciiHost (.decimal ⟨false, 5, -1⟩) :=
    ⟨_, rfl, 5, -1, by decide, Decimal.abs_toRat ⟨false, 5, -1⟩⟩
  obtain ⟨hsame, hiff⟩ := @canonicalDecimalV2_canonical_iff asciiHost "bound" "bound"
    (.str " 0.50") (.decimal ⟨false, 5, -1⟩) "0.5" "0.5" rfl rfl
  have hexact := hiff.mpr ⟨hfits, hfits'⟩
  exact ⟨hsame, hexact.1, hexact.2.1⟩

/-- Of twenty-nine digits the last is rounded away. -/
theorem twentyNine_digits_rounded :
    canonicalDecimalV2 asciiHost "bound" (.str "12345678901234567890123456789") =
        .ok "12345678901234567890123456790" ∧
      canonicalDecimalV2 asciiHost "bound" (.str "12345678901234567890123456790") =
        .ok "12345678901234567890123456790" ∧
      number? asciiHost (.str "12345678901234567890123456789") ≠
        number? asciiHost (.str "12345678901234567890123456790") := by
  refine ⟨rfl, rfl, ?_⟩
  have hleft : number? asciiHost (.str "12345678901234567890123456789") =
      some (Decimal.toRat ⟨false, 12345678901234567890123456789, 0⟩) := rfl
  have hright : number? asciiHost (.str "12345678901234567890123456790") =
      some (Decimal.toRat ⟨false, 12345678901234567890123456790, 0⟩) := rfl
  rw [hleft, hright]
  norm_num [Decimal.toRat, Decimal.sign]

end FactGraph.Scenario.V2
