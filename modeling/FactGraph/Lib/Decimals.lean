import Mathlib.Algebra.Order.Field.Power
import Mathlib.Algebra.Order.Ring.Rat
import Mathlib.Data.List.TakeWhile
import Mathlib.Tactic.LinearCombination
import Mathlib.Tactic.Positivity
import Mathlib.Tactic.Ring

/-!
# Finite decimals

A sign, a coefficient and an exponent of ten, as decimal arithmetic has them: the number they denote,
rounding to a precision (half to even), the form without trailing zeros, and the text without an
exponent.

A number fits a precision if it is an integer of so many digits times a power of ten, and rounding is
exact on these numbers and on no others (`toRat_normalize_iff`). A form without trailing zeros is the
only one of its number (`eq_of_toRat`).
-/

namespace Decimals

structure Decimal where
  negative : Bool
  coeff : Nat
  exp : Int
  deriving DecidableEq, Repr

namespace Decimal

def sign (d : Decimal) : ℚ := if d.negative then -1 else 1

/-- The number a decimal denotes. -/
def toRat (d : Decimal) : ℚ := d.sign * d.coeff * 10 ^ d.exp

theorem sign_ne_zero (d : Decimal) : d.sign ≠ 0 := by
  unfold sign
  split_ifs
  all_goals norm_num

theorem toRat_eq_zero_iff {d : Decimal} : d.toRat = 0 ↔ d.coeff = 0 := by
  unfold toRat
  have hten : (10 : ℚ) ^ d.exp ≠ 0 := zpow_ne_zero _ (by norm_num)
  simp [hten, d.sign_ne_zero]

theorem abs_toRat (d : Decimal) : |d.toRat| = d.coeff * 10 ^ d.exp := by
  unfold toRat sign
  have hten : (0 : ℚ) < 10 ^ d.exp := zpow_pos (by norm_num) _
  split_ifs
  · rw [neg_one_mul, neg_mul, abs_neg, abs_of_nonneg (by positivity)]
  · rw [one_mul, abs_of_nonneg (by positivity)]

end Decimal

/-! ## Powers of ten -/

theorem zpow_split {e m : Int} (h : m ≤ e) : (10 : ℚ) ^ e = 10 ^ m * 10 ^ (e - m).toNat := by
  rw [← zpow_natCast, Int.toNat_of_nonneg (by omega), ← zpow_add₀ (by norm_num)]
  congr 1
  omega

/-- Coefficients of one number, with the exponents brought to a common one. -/
theorem nat_eq_of_scaled {c m : Nat} {e f : Int} (h : (c : ℚ) * 10 ^ e = m * 10 ^ f) :
    c * 10 ^ (e - min e f).toNat = m * 10 ^ (f - min e f).toNat := by
  rw [zpow_split (Int.min_le_left e f), zpow_split (Int.min_le_right e f)] at h
  have hten : (10 : ℚ) ^ min e f ≠ 0 := zpow_ne_zero _ (by norm_num)
  have hrat : (c : ℚ) * 10 ^ (e - min e f).toNat = m * 10 ^ (f - min e f).toNat := by
    apply mul_left_cancel₀ hten
    linear_combination h
  exact_mod_cast hrat

/-- A coefficient of `prec + k` digits that is one of at most `prec`, scaled, ends in `k` zeros. -/
theorem pow_dvd_of_scaled {c m a b prec k : Nat} (h : c * 10 ^ a = m * 10 ^ b) (hm : m < 10 ^ prec)
    (hk : 0 < k) (hc : 10 ^ (prec + k - 1) ≤ c) : 10 ^ k ∣ c := by
  have hprec : 10 ^ prec ≤ 10 ^ (prec + k - 1) := Nat.pow_le_pow_right (by norm_num) (by omega)
  by_cases hab : b ≤ a
  · -- then the small coefficient is the larger one
    have hsplit : 10 ^ a = 10 ^ (a - b) * 10 ^ b := by
      rw [← pow_add]
      congr 1
      omega
    rw [hsplit, ← mul_assoc] at h
    have hmc : c * 10 ^ (a - b) = m := Nat.eq_of_mul_eq_mul_right (by positivity) h
    have hle : c ≤ c * 10 ^ (a - b) := Nat.le_mul_of_pos_right c (by positivity)
    omega
  · have hsplit : 10 ^ b = 10 ^ (b - a) * 10 ^ a := by
      rw [← pow_add]
      congr 1
      omega
    rw [hsplit, ← mul_assoc] at h
    have hcm : c = m * 10 ^ (b - a) := Nat.eq_of_mul_eq_mul_right (by positivity) h
    by_cases hba : k ≤ b - a
    · rw [hcm]
      exact Dvd.dvd.mul_left (pow_dvd_pow 10 hba) m
    · have hlt : m * 10 ^ (b - a) < 10 ^ prec * 10 ^ (b - a) := Nat.mul_lt_mul_of_pos_right hm (by positivity)
      have hle : 10 ^ prec * 10 ^ (b - a) ≤ 10 ^ (prec + k - 1) := by
        rw [← pow_add]
        exact Nat.pow_le_pow_right (by norm_num) (by omega)
      omega

/-! ## Trailing zeros -/

/-- The trailing zeros of a coefficient go to the exponent; the first argument bounds the steps. -/
def stripZeros : Nat → Nat → Int → Nat × Int
  | 0, c, e => (c, e)
  | fuel + 1, c, e => if c % 10 = 0 then stripZeros fuel (c / 10) (e + 1) else (c, e)

theorem stripZeros_spec {fuel c : Nat} (e : Int) (hc : c ≠ 0) (hfuel : c ≤ fuel) :
    ∃ k : Nat, c = (stripZeros fuel c e).1 * 10 ^ k ∧ (stripZeros fuel c e).2 = e + k ∧
      (stripZeros fuel c e).1 % 10 ≠ 0 := by
  induction fuel generalizing c e with
  | zero => omega
  | succ fuel ih =>
    unfold stripZeros
    split_ifs with hzero
    · obtain ⟨k, hk, hexp, hlast⟩ := ih (e + 1) (c := c / 10) (by omega) (by omega)
      refine ⟨k + 1, ?_, ?_, hlast⟩
      · have hten : c = c / 10 * 10 := by omega
        rw [pow_succ, ← mul_assoc, ← hk]
        exact hten
      · rw [hexp]
        push_cast
        ring
    · exact ⟨0, by simp, by simp, hzero⟩

/-! ## Rounding -/

/-- The number of digits of a coefficient. -/
def digitCount (c : Nat) : Nat := (Nat.toDigits 10 c).length

theorem pow_le_of_lt_digitCount {c n : Nat} (hn : 0 < n) (h : n < digitCount c) : 10 ^ n ≤ c := by
  by_contra hlt
  have hle := (Nat.length_toDigits_le_iff (b := 10) (n := c) (by norm_num) hn).mpr (by omega)
  exact absurd h (by unfold digitCount; omega)

theorem lt_pow_of_digitCount_le {c n : Nat} (hn : 0 < n) (h : digitCount c ≤ n) : c < 10 ^ n :=
  (Nat.length_toDigits_le_iff (by norm_num) hn).mp h

/-- A coefficient without its last `k` digits, rounded half to even. -/
def halfEven (c k : Nat) : Nat :=
  let q := c / 10 ^ k
  let r := c % 10 ^ k
  if 10 ^ k < 2 * r ∨ (2 * r = 10 ^ k ∧ q % 2 = 1) then q + 1 else q

/-- Rounding to the precision of a context. -/
def roundTo (prec : Nat) (d : Decimal) : Decimal :=
  let k := digitCount d.coeff - prec
  if k = 0 then d else { d with coeff := halfEven d.coeff k, exp := d.exp + k }

/-- `Decimal.normalize`. -/
def normalize (prec : Nat) (d : Decimal) : Decimal :=
  let rounded := roundTo prec d
  if rounded.coeff = 0 then { d with coeff := 0, exp := 0 }
  else
    let (c, e) := stripZeros rounded.coeff rounded.coeff rounded.exp
    { d with coeff := c, exp := e }

/-- A number of at most `prec` significant digits. -/
def Fits (prec : Nat) (q : ℚ) : Prop := ∃ (c : Nat) (e : Int), c < 10 ^ prec ∧ |q| = c * 10 ^ e

/-- Rounding is exact if the digits it drops are zeros, and only then. -/
theorem halfEven_eq_iff {c k : Nat} : halfEven c k * 10 ^ k = c ↔ 10 ^ k ∣ c := by
  have hpos : 0 < 10 ^ k := by positivity
  have hdiv := Nat.div_add_mod c (10 ^ k)
  have hmod := Nat.mod_lt c hpos
  unfold halfEven
  constructor
  · intro h
    rw [← h]
    exact Nat.dvd_mul_left _ _
  · intro h
    have hr : c % 10 ^ k = 0 := Nat.mod_eq_zero_of_dvd h
    rw [if_neg (by omega)]
    exact Nat.div_mul_cancel h

theorem halfEven_le {c k n : Nat} (hc : c < 10 ^ (n + k)) : halfEven c k ≤ 10 ^ n := by
  have hq : c / 10 ^ k < 10 ^ n := by
    rw [Nat.div_lt_iff_lt_mul (by positivity), ← pow_add]
    exact hc
  unfold halfEven
  dsimp only
  split_ifs
  all_goals omega

theorem halfEven_pos {c k n : Nat} (hc : 10 ^ (n + k) ≤ c) : 0 < halfEven c k := by
  have hq : 0 < c / 10 ^ k := by
    apply Nat.div_pos _ (by positivity)
    exact le_trans (Nat.pow_le_pow_right (by norm_num) (by omega)) hc
  unfold halfEven
  dsimp only
  split_ifs
  all_goals omega

section

variable {prec : Nat} (hprec : 0 < prec)
include hprec

theorem roundTo_coeff_ne_zero {d : Decimal} (hd : d.coeff ≠ 0) : (roundTo prec d).coeff ≠ 0 := by
  unfold roundTo
  dsimp only
  split_ifs with hk
  · exact hd
  · have hpow := @pow_le_of_lt_digitCount d.coeff (digitCount d.coeff - 1) (by omega) (by omega)
    have hsum : digitCount d.coeff - 1 = prec - 1 + (digitCount d.coeff - prec) := by omega
    rw [hsum] at hpow
    exact Nat.pos_iff_ne_zero.mp (halfEven_pos hpow)

theorem fits_roundTo (d : Decimal) : Fits prec (roundTo prec d).toRat := by
  have hpos : 1 < 10 ^ prec := Nat.one_lt_pow (by omega) (by norm_num)
  unfold Fits
  rw [Decimal.abs_toRat]
  by_cases hk : digitCount d.coeff - prec = 0
  · have hsame : roundTo prec d = d := by
      unfold roundTo
      rw [if_pos hk]
    rw [hsame]
    exact ⟨d.coeff, d.exp, lt_pow_of_digitCount_le hprec (by omega), rfl⟩
  · have hround : roundTo prec d =
        { d with coeff := halfEven d.coeff (digitCount d.coeff - prec),
                 exp := d.exp + (digitCount d.coeff - prec : Nat) } := by
      unfold roundTo
      rw [if_neg hk]
    have hle : halfEven d.coeff (digitCount d.coeff - prec) ≤ 10 ^ prec := by
      apply halfEven_le
      apply lt_pow_of_digitCount_le (by omega)
      omega
    rw [hround]
    dsimp only
    rcases Nat.lt_or_eq_of_le hle with hlt | heq
    · exact ⟨_, _, hlt, rfl⟩
    · -- rounded up to the next power of ten
      refine ⟨1, prec + (d.exp + (digitCount d.coeff - prec : Nat)), hpos, ?_⟩
      rw [heq]
      push_cast
      simp only [zpow_add₀ (show (10 : ℚ) ≠ 0 by norm_num), zpow_natCast]
      ring

/-- Rounding leaves the number what it is exactly if it fits. -/
theorem toRat_roundTo_iff {d : Decimal} :
    (roundTo prec d).toRat = d.toRat ↔ Fits prec d.toRat := by
  constructor
  · intro h
    rw [← h]
    exact fits_roundTo hprec d
  · intro ⟨m, f, hm, hq⟩
    unfold roundTo
    dsimp only
    split_ifs with hk
    · rfl
    · rw [Decimal.abs_toRat] at hq
      have hpow := @pow_le_of_lt_digitCount d.coeff (digitCount d.coeff - 1) (by omega) (by omega)
      have hsum : digitCount d.coeff - 1 = prec + (digitCount d.coeff - prec) - 1 := by omega
      rw [hsum] at hpow
      have hdvd := pow_dvd_of_scaled (nat_eq_of_scaled hq) hm (by omega) hpow
      have hexact := halfEven_eq_iff.mpr hdvd
      unfold Decimal.toRat Decimal.sign
      dsimp only
      rw [zpow_add₀ (by norm_num), zpow_natCast]
      have hrat : (halfEven d.coeff (digitCount d.coeff - prec) : ℚ) *
          10 ^ (digitCount d.coeff - prec) = d.coeff := by
        exact_mod_cast hexact
      rw [← hrat]
      ring

omit hprec in
theorem le_exp_roundTo (d : Decimal) : d.exp ≤ (roundTo prec d).exp := by
  unfold roundTo
  dsimp only
  split_ifs
  · exact le_refl _
  · simp

/-! ## The form without trailing zeros -/

/-- What `normalize` makes of a decimal that is not zero. -/
theorem normalize_spec {d : Decimal} (hd : d.coeff ≠ 0) :
    (normalize prec d).coeff % 10 ≠ 0 ∧ (normalize prec d).toRat = (roundTo prec d).toRat ∧
      d.exp ≤ (normalize prec d).exp := by
  have hround := roundTo_coeff_ne_zero hprec hd
  obtain ⟨k, hk, hexp, hlast⟩ := stripZeros_spec (roundTo prec d).exp hround (le_refl _)
  have hle := @le_exp_roundTo prec d
  have hneg : (roundTo prec d).negative = d.negative := by
    unfold roundTo
    dsimp only
    split_ifs
    all_goals rfl
  unfold normalize
  rw [if_neg hround]
  dsimp only
  refine ⟨hlast, ?_, ?_⟩
  · unfold Decimal.toRat Decimal.sign
    dsimp only
    rw [hneg, hexp, zpow_add₀ (by norm_num), zpow_natCast]
    have hrat : ((roundTo prec d).coeff : ℚ) =
        (stripZeros (roundTo prec d).coeff (roundTo prec d).coeff (roundTo prec d).exp).1 * 10 ^ k := by
      exact_mod_cast hk
    rw [hrat]
    ring
  · rw [hexp]
    omega

theorem toRat_normalize_iff {d : Decimal} (hd : d.coeff ≠ 0) :
    (normalize prec d).toRat = d.toRat ↔ Fits prec d.toRat := by
  rw [(normalize_spec hprec hd).2.1]
  exact toRat_roundTo_iff hprec

theorem fits_normalize {d : Decimal} (hd : d.coeff ≠ 0) : Fits prec (normalize prec d).toRat := by
  rw [(normalize_spec hprec hd).2.1]
  exact fits_roundTo hprec d

end

/-- Without trailing zeros a number has one coefficient and one exponent. -/
theorem eq_of_toRat {d d' : Decimal} (hd : d.coeff % 10 ≠ 0) (hd' : d'.coeff % 10 ≠ 0)
    (h : d.toRat = d'.toRat) : d = d' := by
  have habs := congrArg (fun q : ℚ => |q|) h
  simp only [Decimal.abs_toRat] at habs
  have hnat := nat_eq_of_scaled habs
  have hexp : d.exp = d'.exp := by
    rcases lt_trichotomy d.exp d'.exp with hlt | heq | hgt
    · rw [min_eq_left (le_of_lt hlt), sub_self, Int.toNat_zero, pow_zero, mul_one] at hnat
      obtain ⟨k, hk⟩ : ∃ k, (d'.exp - d.exp).toNat = k + 1 := ⟨(d'.exp - d.exp).toNat - 1, by omega⟩
      rw [hk, pow_succ, ← mul_assoc] at hnat
      omega
    · exact heq
    · rw [min_eq_right (le_of_lt hgt), sub_self, Int.toNat_zero, pow_zero, mul_one] at hnat
      obtain ⟨k, hk⟩ : ∃ k, (d.exp - d'.exp).toNat = k + 1 := ⟨(d.exp - d'.exp).toNat - 1, by omega⟩
      rw [hk, pow_succ, ← mul_assoc] at hnat
      omega
  have hcoeff : d.coeff = d'.coeff := by
    rw [hexp, min_self, sub_self, Int.toNat_zero, pow_zero, mul_one, mul_one] at hnat
    exact hnat
  have hsign : d.negative = d'.negative := by
    have hten : (10 : ℚ) ^ d'.exp ≠ 0 := zpow_ne_zero _ (by norm_num)
    have hne : (d'.coeff : ℚ) ≠ 0 := by
      intro hzero
      have hz : d'.coeff = 0 := by exact_mod_cast hzero
      rw [hz] at hd'
      exact hd' rfl
    unfold Decimal.toRat at h
    rw [hexp, hcoeff] at h
    have heq := mul_right_cancel₀ hne (mul_right_cancel₀ hten h)
    unfold Decimal.sign at heq
    cases hn : d.negative <;> cases hn' : d'.negative
    all_goals simp [hn, hn'] at heq ⊢
    all_goals norm_num at heq
  obtain ⟨n, c, e⟩ := d
  obtain ⟨n', c', e'⟩ := d'
  simp only at hexp hcoeff hsign
  rw [hexp, hcoeff, hsign]

/-! ## Text -/

/-- A coefficient with at least one digit before the last `scale`. -/
def padded (c scale : Nat) : List Char :=
  List.replicate (scale + 1 - (Nat.toDigits 10 c).length) '0' ++ Nat.toDigits 10 c

/-- The text without the sign. -/
def fixedBody (c : Nat) : Int → List Char
  | .ofNat k => if c = 0 then ['0'] else Nat.toDigits 10 c ++ List.replicate k '0'
  | .negSucc k =>
      let ds := padded c (k + 1)
      ds.take (ds.length - (k + 1)) ++ '.' :: ds.drop (ds.length - (k + 1))

/-- `format(d, "f")`. -/
def fixed (d : Decimal) : List Char :=
  if d.negative then '-' :: fixedBody d.coeff d.exp else fixedBody d.coeff d.exp

/-- Digits with at most one point among them: the coefficient, and how many digits follow the point. -/
def readUnsigned? (cs : List Char) : Option (Nat × Nat) :=
  let int := cs.takeWhile Char.isDigit
  match cs.dropWhile Char.isDigit with
  | [] => if int = [] then none else some (Nat.ofDigitChars 10 int 0, 0)
  | '.' :: frac =>
      if frac.all Char.isDigit = true ∧ int ++ frac ≠ [] then
        some (Nat.ofDigitChars 10 (int ++ frac) 0, frac.length)
      else none
  | _ :: _ => none

/-- The decimal of a text without an exponent; `none` also for infinities and for what is no number. -/
def read? : List Char → Option Decimal
  | '-' :: cs => (readUnsigned? cs).map fun p => ⟨true, p.1, -(p.2 : Int)⟩
  | '+' :: cs => (readUnsigned? cs).map fun p => ⟨false, p.1, -(p.2 : Int)⟩
  | cs => (readUnsigned? cs).map fun p => ⟨false, p.1, -(p.2 : Int)⟩

theorem readUnsigned?_digits {cs : List Char} (hne : cs ≠ []) (h : ∀ c ∈ cs, c.isDigit = true) :
    readUnsigned? cs = some (Nat.ofDigitChars 10 cs 0, 0) := by
  have htake : cs.takeWhile Char.isDigit = cs := List.takeWhile_eq_self_iff.mpr h
  have hdrop : cs.dropWhile Char.isDigit = [] := List.dropWhile_eq_nil_iff.mpr h
  unfold readUnsigned?
  rw [htake, hdrop]
  exact if_neg hne

theorem readUnsigned?_point {int frac : List Char} (hne : int ++ frac ≠ [])
    (hint : ∀ c ∈ int, c.isDigit = true) (hfrac : ∀ c ∈ frac, c.isDigit = true) :
    readUnsigned? (int ++ '.' :: frac) = some (Nat.ofDigitChars 10 (int ++ frac) 0, frac.length) := by
  have hpoint : Char.isDigit '.' = false := rfl
  have htake : (int ++ '.' :: frac).takeWhile Char.isDigit = int := by
    rw [List.takeWhile_append_of_pos hint, List.takeWhile_cons_of_neg (by simp [hpoint]),
      List.append_nil]
  have hdrop : (int ++ '.' :: frac).dropWhile Char.isDigit = '.' :: frac := by
    rw [List.dropWhile_append_of_pos hint, List.dropWhile_cons_of_neg (by simp [hpoint])]
  unfold readUnsigned?
  rw [htake, hdrop]
  exact if_pos ⟨List.all_eq_true.mpr hfrac, hne⟩

theorem readUnsigned?_letter {c : Char} {cs : List Char} (hdigit : c.isDigit = false) (hpoint : c ≠ '.') :
    readUnsigned? (c :: cs) = none := by
  unfold readUnsigned?
  rw [List.dropWhile_cons_of_neg (by simp [hdigit])]
  split
  next h => cases h
  next h => exact absurd (List.cons.inj h).1 hpoint
  next => rfl

theorem isDigit_of_mem_toDigits {n : Nat} {c : Char} (h : c ∈ Nat.toDigits 10 n) :
    c.isDigit = true :=
  Nat.isDigit_of_mem_toDigits (by norm_num) (by norm_num) h

theorem isDigit_of_mem_zeros {n : Nat} {c : Char} (h : c ∈ List.replicate n '0') :
    c.isDigit = true := by
  rw [List.eq_of_mem_replicate h]
  rfl

theorem isDigit_of_mem_padded {c scale : Nat} {x : Char} (h : x ∈ padded c scale) :
    x.isDigit = true := by
  rcases List.mem_append.mp h with h | h
  · exact isDigit_of_mem_zeros h
  · exact isDigit_of_mem_toDigits h

theorem lt_length_padded (c scale : Nat) : scale < (padded c scale).length := by
  unfold padded
  rw [List.length_append, List.length_replicate]
  omega

theorem ofDigitChars_padded (c scale : Nat) : Nat.ofDigitChars 10 (padded c scale) 0 = c := by
  unfold padded
  rw [Nat.ofDigitChars_append, Nat.ofDigitChars_replicate_zero, Nat.mul_zero,
    Nat.ofDigitChars_ten_toDigits]

/-- The coefficient that is read of a text without an exponent. -/
def fixedCoeff (c : Nat) (e : Int) : Nat := c * 10 ^ e.toNat

theorem readUnsigned?_fixedBody (c : Nat) (e : Int) :
    readUnsigned? (fixedBody c e) = some (fixedCoeff c e, (-e).toNat) := by
  unfold fixedCoeff
  cases e with
  | ofNat k =>
    unfold fixedBody
    have hneg : (-Int.ofNat k).toNat = 0 := by
      rw [Int.ofNat_eq_natCast]
      omega
    rw [hneg, Int.ofNat_eq_natCast, Int.toNat_natCast]
    split_ifs with hc
    · rw [hc, Nat.zero_mul]
      rfl
    · rw [readUnsigned?_digits]
      · rw [Nat.ofDigitChars_append, Nat.ofDigitChars_ten_toDigits, Nat.ofDigitChars_replicate_zero,
          Nat.mul_comm]
      · simp [Nat.toDigits_ne_nil]
      · intro x hx
        rcases List.mem_append.mp hx with hx | hx
        · exact isDigit_of_mem_toDigits hx
        · exact isDigit_of_mem_zeros hx
  | negSucc k =>
    have hlength := lt_length_padded c (k + 1)
    unfold fixedBody
    dsimp only
    rw [readUnsigned?_point]
    · rw [List.take_append_drop, ofDigitChars_padded, List.length_drop]
      congr 2
      · simp
      · rw [Int.neg_negSucc]
        omega
    · rw [List.take_append_drop]
      intro h
      rw [h] at hlength
      simp at hlength
    · intro x hx
      exact isDigit_of_mem_padded (List.mem_of_mem_take hx)
    · intro x hx
      exact isDigit_of_mem_padded (List.mem_of_mem_drop hx)

/-- A text without an exponent starts with a digit, after the sign. -/
theorem fixedBody_head (c : Nat) (e : Int) :
    ∃ x cs, fixedBody c e = x :: cs ∧ x.isDigit = true := by
  cases e with
  | ofNat k =>
    unfold fixedBody
    split_ifs
    · exact ⟨'0', [], rfl, rfl⟩
    · obtain ⟨x, cs, hcs⟩ := List.exists_cons_of_ne_nil (@Nat.toDigits_ne_nil c 10)
      refine ⟨x, cs ++ List.replicate k '0', by rw [hcs]; rfl, ?_⟩
      exact isDigit_of_mem_toDigits (by rw [hcs]; exact List.mem_cons_self)
  | negSucc k =>
    have hlength := lt_length_padded c (k + 1)
    have hne : (padded c (k + 1)).take ((padded c (k + 1)).length - (k + 1)) ≠ [] := by
      intro h
      have hzero := congrArg List.length h
      rw [List.length_take, List.length_nil] at hzero
      omega
    obtain ⟨x, cs, hcs⟩ := List.exists_cons_of_ne_nil hne
    unfold fixedBody
    dsimp only
    refine ⟨x, cs ++ '.' :: _, by rw [hcs]; rfl, ?_⟩
    exact isDigit_of_mem_padded (List.mem_of_mem_take (by rw [hcs]; exact List.mem_cons_self))

theorem mem_fixed {d : Decimal} {x : Char} (h : x ∈ fixed d) :
    x.isDigit = true ∨ x = '-' ∨ x = '.' := by
  have hbody : x ∈ fixedBody d.coeff d.exp → x.isDigit = true ∨ x = '.' := by
    intro h
    unfold fixedBody at h
    split at h
    next k =>
      split_ifs at h
      · rw [List.mem_singleton.mp h]
        exact .inl rfl
      · rcases List.mem_append.mp h with h | h
        · exact .inl (isDigit_of_mem_toDigits h)
        · exact .inl (isDigit_of_mem_zeros h)
    next k =>
      rcases List.mem_append.mp h with h | h
      · exact .inl (isDigit_of_mem_padded (List.mem_of_mem_take h))
      · rcases List.mem_cons.mp h with h | h
        · exact .inr h
        · exact .inl (isDigit_of_mem_padded (List.mem_of_mem_drop h))
  unfold fixed at h
  split_ifs at h
  · rcases List.mem_cons.mp h with h | h
    · exact .inr (.inl h)
    · exact (hbody h).imp_right .inr
  · exact (hbody h).imp_right .inr

/-- What is read of the text of a decimal. -/
theorem read?_fixed (d : Decimal) :
    read? (fixed d) = some ⟨d.negative, fixedCoeff d.coeff d.exp, min d.exp 0⟩ := by
  have hexp : -(((-d.exp).toNat : Nat) : Int) = min d.exp 0 := by omega
  have hbody := readUnsigned?_fixedBody d.coeff d.exp
  unfold fixed
  split_ifs with hneg
  · show (readUnsigned? (fixedBody d.coeff d.exp)).map (fun p => Decimal.mk true p.1 (-(p.2 : Int))) = _
    rw [hbody, Option.map_some, hexp, hneg]
  · obtain ⟨x, cs, hcs, hx⟩ := fixedBody_head d.coeff d.exp
    rw [hcs] at hbody ⊢
    have hminus : x ≠ '-' := by
      intro h
      subst h
      cases hx
    have hplus : x ≠ '+' := by
      intro h
      subst h
      cases hx
    unfold read?
    split
    next h => exact absurd (List.cons.inj h).1 hminus
    next h => exact absurd (List.cons.inj h).1 hplus
    next =>
      rw [hbody, Option.map_some, hexp]
      simp [hneg]

/-- The text of a decimal denotes its number. -/
theorem toRat_fixed (d : Decimal) :
    (⟨d.negative, fixedCoeff d.coeff d.exp, min d.exp 0⟩ : Decimal).toRat = d.toRat := by
  unfold Decimal.toRat Decimal.sign fixedCoeff
  dsimp only
  rw [zpow_split (Int.min_le_left d.exp 0)]
  have hexp : (d.exp - min d.exp 0).toNat = d.exp.toNat := by omega
  rw [hexp]
  push_cast
  ring

end Decimals
