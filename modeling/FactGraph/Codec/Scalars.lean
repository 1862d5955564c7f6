import FactGraph.Db.Texts

/-!
# The texts of scalars

How the columns of a ledger spell a scalar, and that it is read back: integers in decimal, bytes in
base 64, floats by `float.__repr__`.
-/

namespace FactGraph.Codec

open Protocol Store Db

/-! ## Integers -/

/-- The characters `int` skips around a number. -/
def isPySpace (c : Char) : Bool :=
  c.toNat ∈ [9, 10, 11, 12, 13, 28, 29, 30, 31, 32, 133, 160, 5760, 8192, 8193, 8194, 8195, 8196,
    8197, 8198, 8199, 8200, 8201, 8202, 8232, 8233, 8239, 8287, 12288]

def strip (cs : List Char) : List Char :=
  ((cs.dropWhile isPySpace).reverse.dropWhile isPySpace).reverse

theorem strip_of_plain {cs : List Char} (h : ∀ c ∈ cs, isPySpace c = false) : strip cs = cs := by
  have hdrop : ∀ ds : List Char, (∀ c ∈ ds, isPySpace c = false) → ds.dropWhile isPySpace = ds := by
    intro ds hds
    cases ds with
    | nil => rfl
    | cons c ds => simp [hds c (by simp)]
  unfold strip
  rw [hdrop cs h, hdrop cs.reverse (by simpa using h), List.reverse_reverse]

theorem isDigit_spec {c : Char} (h : c.isDigit = true) : isPySpace c = false ∧ c ≠ '_' := by
  have hrange : 48 ≤ c.toNat ∧ c.toNat ≤ 57 := by
    simp only [Char.isDigit, Bool.and_eq_true, decide_eq_true_eq] at h
    exact ⟨UInt32.le_iff_toNat_le.mp h.1, UInt32.le_iff_toNat_le.mp h.2⟩
  constructor
  · unfold isPySpace
    simp only [List.mem_cons, List.not_mem_nil, or_false, decide_eq_false_iff_not]
    omega
  · intro heq
    subst heq
    exact absurd hrange (by decide)

/-! ## Bytes -/

theorem base64Value?_base64Char {n : Nat} (h : n < 64) :
    base64Value? (base64Char '+' '/' n) = some n ∧ base64Char '+' '/' n ≠ '=' ∧
      (base64Char '+' '/' n).toNat < 128 := by
  have hall : ∀ n : Fin 64, base64Value? (base64Char '+' '/' n) = some n.val ∧
      base64Char '+' '/' n ≠ '=' ∧ (base64Char '+' '/' n).toNat < 128 := by decide
  exact hall ⟨n, h⟩

/-- One digit. -/
theorem a2bBase64_digit {n : Nat} (h : n < 64) (left pads : Nat) (cs : List Char) :
    a2bBase64 0 left pads (base64Char '+' '/' n :: cs) = a2bBase64 1 n 0 cs ∧
    a2bBase64 1 left pads (base64Char '+' '/' n :: cs) =
      (a2bBase64 2 (n % 16) 0 cs).map (UInt8.ofNat (left * 4 + n / 16) :: ·) ∧
    a2bBase64 2 left pads (base64Char '+' '/' n :: cs) =
      (a2bBase64 3 (n % 4) 0 cs).map (UInt8.ofNat (left * 16 + n / 4) :: ·) ∧
    a2bBase64 3 left pads (base64Char '+' '/' n :: cs) =
      (a2bBase64 0 0 0 cs).map (UInt8.ofNat (left * 64 + n) :: ·) := by
  obtain ⟨hvalue, hpad, -⟩ := base64Value?_base64Char h
  refine ⟨?_, ?_, ?_, ?_⟩
  all_goals
    simp only [a2bBase64, if_neg hpad, hvalue]

/-- Bytes are read back from their digits, with as much padding as goes with them. -/
theorem a2bBase64_base64Digits (raw : List UInt8) :
    a2bBase64 0 0 0 ((base64Digits raw).map (base64Char '+' '/') ++
      List.replicate ((3 - raw.length % 3) % 3) '=') = some raw := by
  fun_induction base64Digits raw with
  | case1 => rfl
  | case2 a =>
    have ha := a.toNat_lt
    have hfirst := @a2bBase64_digit (a.toNat / 4) (by omega) 0 0
      [base64Char '+' '/' (a.toNat % 4 * 16), '=', '=']
    have hsecond := @a2bBase64_digit (a.toNat % 4 * 16) (by omega) (a.toNat / 4) 0 ['=', '=']
    have hbyte : a.toNat / 4 * 4 + a.toNat % 4 * 16 / 16 = a.toNat := by omega
    show a2bBase64 0 0 0 [base64Char '+' '/' (a.toNat / 4),
      base64Char '+' '/' (a.toNat % 4 * 16), '=', '='] = _
    rw [hfirst.1, hsecond.2.1, hbyte, UInt8.ofNat_toNat]
    rfl
  | case3 a b =>
    have ha := a.toNat_lt
    have hb := b.toNat_lt
    have hfirst := @a2bBase64_digit (a.toNat / 4) (by omega) 0 0
      [base64Char '+' '/' (a.toNat % 4 * 16 + b.toNat / 16),
        base64Char '+' '/' (b.toNat % 16 * 4), '=']
    have hsecond := @a2bBase64_digit (a.toNat % 4 * 16 + b.toNat / 16) (by omega) (a.toNat / 4) 0
      [base64Char '+' '/' (b.toNat % 16 * 4), '=']
    have hthird := @a2bBase64_digit (b.toNat % 16 * 4) (by omega)
      ((a.toNat % 4 * 16 + b.toNat / 16) % 16) 0 ['=']
    have hbyte : a.toNat / 4 * 4 + (a.toNat % 4 * 16 + b.toNat / 16) / 16 = a.toNat := by omega
    have hbyte' : (a.toNat % 4 * 16 + b.toNat / 16) % 16 * 16 + b.toNat % 16 * 4 / 4 = b.toNat := by
      omega
    show a2bBase64 0 0 0 [base64Char '+' '/' (a.toNat / 4),
      base64Char '+' '/' (a.toNat % 4 * 16 + b.toNat / 16),
      base64Char '+' '/' (b.toNat % 16 * 4), '='] = _
    rw [hfirst.1, hsecond.2.1, hthird.2.2.1, hbyte, hbyte', UInt8.ofNat_toNat, UInt8.ofNat_toNat]
    rfl
  | case4 a b c rest ih =>
    have ha := a.toNat_lt
    have hb := b.toNat_lt
    have hc := c.toNat_lt
    have hpad : (3 - (a :: b :: c :: rest).length % 3) % 3 = (3 - rest.length % 3) % 3 := by
      simp only [List.length_cons]
      omega
    rw [hpad]
    simp only [List.map_cons, List.cons_append]
    have hbyte : a.toNat / 4 * 4 + (a.toNat % 4 * 16 + b.toNat / 16) / 16 = a.toNat := by omega
    have hbyte' : (a.toNat % 4 * 16 + b.toNat / 16) % 16 * 16 +
        (b.toNat % 16 * 4 + c.toNat / 64) / 4 = b.toNat := by omega
    have hbyte'' : (b.toNat % 16 * 4 + c.toNat / 64) % 4 * 64 + c.toNat % 64 = c.toNat := by omega
    rw [(a2bBase64_digit (by omega) 0 0 _).1, (a2bBase64_digit (by omega) _ 0 _).2.1,
      (a2bBase64_digit (by omega) _ 0 _).2.2.1, (a2bBase64_digit (by omega) _ 0 _).2.2.2, ih, hbyte,
      hbyte', hbyte'', UInt8.ofNat_toNat, UInt8.ofNat_toNat, UInt8.ofNat_toNat]
    rfl

/-- The digits of bytes are below 64. -/
theorem base64Digits_lt (raw : List UInt8) : ∀ n ∈ base64Digits raw, n < 64 := by
  fun_induction base64Digits raw with
  | case1 => simp
  | case2 a =>
    have ha := a.toNat_lt
    intro n hn
    simp only [List.mem_cons, List.not_mem_nil, or_false] at hn
    omega
  | case3 a b =>
    have ha := a.toNat_lt
    have hb := b.toNat_lt
    intro n hn
    simp only [List.mem_cons, List.not_mem_nil, or_false] at hn
    omega
  | case4 a b c rest ih =>
    have ha := a.toNat_lt
    have hb := b.toNat_lt
    have hc := c.toNat_lt
    intro n hn
    simp only [List.mem_cons] at hn
    rcases hn with hn | hn | hn | hn | hn
    · omega
    · omega
    · omega
    · omega
    · exact ih n hn

/-- `base64.b64decode` of `base64.b64encode`. -/
theorem b64decode?_base64 (raw : List UInt8) : b64decode? (base64 raw) = some raw := by
  have hascii : ((base64 raw).toList.all fun c => c.toNat < 128) = true := by
    simp only [base64, String.toList_ofList, List.all_append, Bool.and_eq_true, List.all_eq_true,
      decide_eq_true_eq, List.mem_map, List.mem_replicate]
    constructor
    · rintro c ⟨n, hn, rfl⟩
      exact (base64Value?_base64Char (base64Digits_lt raw n hn)).2.2
    · rintro c ⟨-, rfl⟩
      decide
  unfold b64decode?
  rw [if_pos hascii, base64, String.toList_ofList]
  exact a2bBase64_base64Digits raw

/-- `base64.urlsafe_b64decode((text + padding).encode("ascii"))`. -/
def urlsafeB64decode? (text : String) : Option (List UInt8) :=
  let padding := List.replicate ((4 - text.toList.length % 4) % 4) '='
  b64decode? (String.ofList ((text.toList ++ padding).map fun c =>
    if c = '-' then '+' else if c = '_' then '/' else c))

theorem length_base64Digits (raw : List UInt8) :
    (4 - (base64Digits raw).length % 4) % 4 = (3 - raw.length % 3) % 3 := by
  fun_induction base64Digits raw with
  | case1 => rfl
  | case2 a => rfl
  | case3 a b => rfl
  | case4 a b c rest ih =>
    simp only [List.length_cons]
    omega

/-- Bytes are read back from their URL-safe text. -/
theorem urlsafeB64decode?_urlsafeBase64 (raw : List UInt8) :
    urlsafeB64decode? (urlsafeBase64 raw) = some raw := by
  have hchar : ∀ n, n < 64 → (if base64Char '-' '_' n = '-' then '+' else
      if base64Char '-' '_' n = '_' then '/' else base64Char '-' '_' n) = base64Char '+' '/' n := by
    intro n hn
    have hall : ∀ n : Fin 64, (if base64Char '-' '_' n = '-' then '+' else
        if base64Char '-' '_' n = '_' then '/' else base64Char '-' '_' n) =
          base64Char '+' '/' n := by decide
    exact hall ⟨n, hn⟩
  have htext : String.ofList (((urlsafeBase64 raw).toList ++
      List.replicate ((4 - (urlsafeBase64 raw).toList.length % 4) % 4) '=').map fun c =>
        if c = '-' then '+' else if c = '_' then '/' else c) = base64 raw := by
    simp only [urlsafeBase64, String.toList_ofList, List.length_map, length_base64Digits,
      List.map_append, List.map_map, List.map_replicate, base64]
    congr 2
    apply List.map_congr_left
    intro n hn
    exact hchar n (base64Digits_lt raw n hn)
  exact (congrArg b64decode? htext).trans (b64decode?_base64 raw)

end FactGraph.Codec
