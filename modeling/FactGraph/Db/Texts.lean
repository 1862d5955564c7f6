import Mathlib.Data.List.TakeWhile
import Mathlib.Tactic.IntervalCases
import FactGraph.Db.Tokens
import FactGraph.Lib.JsonText

/-!
# The texts of JSON documents

How `json.dumps` writes the documents of this repository and how `json.loads` reads them, over the
texts of `Lib/JsonText`: the two ways of writing characters, with and without `ensure_ascii`, and
the words that literal names, integers and floats are.

The decimal text of a float is `float.__repr__`, which the host provides; what is used of it is that
`float` reads it back (`FloatText`).
-/

namespace FactGraph.Db

open Protocol Store JsonText

/-! ## Characters -/

theorem hexNibble?_hexDigit (n : Nat) : hexNibble? (hexDigit n) = some (n % 16) := by
  unfold hexDigit
  have h : n % 16 < 16 := Nat.mod_lt _ (by omega)
  generalize n % 16 = m at h
  revert m
  decide

theorem codeUnit?_hex4 (n : Nat) (h : n < 65536) :
    codeUnit? (hexDigit (n / 4096)) (hexDigit (n / 256)) (hexDigit (n / 16)) (hexDigit n) =
      some n := by
  simp only [codeUnit?, hexNibble?_hexDigit, Option.bind_eq_bind, Option.bind_some]
  congr 1
  omega

/-- A code unit that is no surrogate is read as the character it is. -/
theorem scanString_hex4 {c : Char} (h : c.toNat < 65536) (rest : List Char) :
    scanString ('\\' :: 'u' :: hex4 c.toNat ++ rest) = (scanString rest).map (consChar c) := by
  have hvalid : c.toNat < 0xd800 ∨ 0xdfff < c.toNat := by
    rcases c.valid with hlow | hhigh
    · exact .inl hlow
    · exact .inr hhigh.1
  simp only [hex4, List.cons_append, List.nil_append, scanString, codeUnit?_hex4 c.toNat h]
  rw [if_neg (by omega), if_neg (by omega), Char.ofNat_toNat]

/-- A character outside the basic plane is read from its two surrogates. -/
theorem scanString_surrogates {c : Char} (h : 65536 ≤ c.toNat) (rest : List Char) :
    scanString ('\\' :: 'u' :: hex4 (0xd800 + (c.toNat - 0x10000) / 0x400) ++
      '\\' :: 'u' :: hex4 (0xdc00 + (c.toNat - 0x10000) % 0x400) ++ rest) =
      (scanString rest).map (consChar c) := by
  have hmax : c.toNat < 0x110000 := by
    rcases c.valid with hlow | hhigh
    · exact lt_trans hlow (by decide)
    · exact hhigh.2
  have hhigh := codeUnit?_hex4 (0xd800 + (c.toNat - 0x10000) / 0x400) (by omega)
  have hlow := codeUnit?_hex4 (0xdc00 + (c.toNat - 0x10000) % 0x400) (by omega)
  simp only [hex4, List.cons_append, List.nil_append, scanString, hhigh, hlow]
  rw [if_pos (by omega), if_pos (by omega)]
  have hsum : 0x10000 + (0xd800 + (c.toNat - 0x10000) / 0x400 - 0xd800) * 0x400 +
      (0xdc00 + (c.toNat - 0x10000) % 0x400 - 0xdc00) = c.toNat := by omega
  rw [hsum, Char.ofNat_toNat]

/-- A character that needs no escape is read as it stands. -/
theorem scanString_plain {c : Char} (hquote : c ≠ '"') (hslash : c ≠ '\\') (h : 32 ≤ c.toNat)
    (rest : List Char) : scanString (c :: rest) = (scanString rest).map (consChar c) := by
  have hcontrol : ¬ (c.toNat < 32 ∨ c = '\\') := by
    intro hc
    rcases hc with hc | hc
    · omega
    · exact hslash hc
  rw [scanString.eq_def]
  split
  · rename_i heq
    cases heq
  · rename_i heq
    cases heq
    exact absurd rfl hquote
  · rename_i heq
    cases heq
    exact absurd rfl hslash
  · rename_i heq
    cases heq
    exact absurd rfl hslash
  · rename_i heq
    cases heq
    rw [if_neg hcontrol]

theorem eq_of_toNat {c d : Char} (h : c.toNat = d.toNat) : c = d := by
  rw [← Char.ofNat_toNat c, h, Char.ofNat_toNat]

/-- `ensure_ascii=False`. -/
def jsonEscaping : Escaping where
  write := Evidence.jsonChar
  reads := by
    intro c rest
    unfold Evidence.jsonChar
    split
    · rename_i h
      subst h
      rfl
    split
    · rename_i h
      subst h
      rfl
    split
    · rename_i h
      subst h
      rfl
    split
    · rename_i h
      subst h
      rfl
    split
    · rename_i h
      subst h
      rfl
    split
    · rename_i h
      rw [eq_of_toNat (c := c) (d := Char.ofNat 12) h]
      rfl
    split
    · rename_i h
      rw [eq_of_toNat (c := c) (d := Char.ofNat 8) h]
      rfl
    split
    · exact scanString_hex4 (by omega) rest
    · exact scanString_plain (by assumption) (by assumption) (by omega) rest

/-- `ensure_ascii=True`. -/
def jsonAsciiEscaping : Escaping where
  write := jsonAsciiChar
  reads := by
    intro c rest
    unfold jsonAsciiChar
    split
    · rename_i h
      subst h
      rfl
    split
    · rename_i h
      subst h
      rfl
    split
    · rename_i h
      subst h
      rfl
    split
    · rename_i h
      subst h
      rfl
    split
    · rename_i h
      subst h
      rfl
    split
    · rename_i h
      rw [eq_of_toNat (c := c) (d := Char.ofNat 12) h]
      rfl
    split
    · rename_i h
      rw [eq_of_toNat (c := c) (d := Char.ofNat 8) h]
      rfl
    split
    · exact scanString_plain (by assumption) (by assumption) (by omega) rest
    split
    · exact scanString_hex4 (by omega) rest
    · exact scanString_surrogates (by omega) rest

/-! ## Words -/

/-- `0|[1-9][0-9]*`. -/
def isNatNumeral : List Char → Bool
  | [] => false
  | ['0'] => true
  | d :: ds => d != '0' && (d :: ds).all (·.isDigit)

/-- The text behind an optional minus sign. -/
def unsigned : List Char → List Char
  | '-' :: cs => cs
  | cs => cs

/-- `[eE][-+]?[0-9]+`. -/
def isExponent : List Char → Bool
  | e :: sign :: ds =>
      let digits := if sign = '+' ∨ sign = '-' then ds else sign :: ds
      (e == 'e' || e == 'E') && !digits.isEmpty && digits.all (·.isDigit)
  | _ => false

/-- An integer of a JSON text. -/
def isIntNumeral (w : String) : Bool := isNatNumeral (unsigned w.toList)

/-- A number of a JSON text with a fraction or an exponent. -/
def isFloatNumeral (w : String) : Bool :=
  let cs := unsigned w.toList
  isNatNumeral (cs.takeWhile (·.isDigit)) &&
    match cs.dropWhile (·.isDigit) with
    | '.' :: rest =>
        !(rest.takeWhile (·.isDigit)).isEmpty &&
          ((rest.dropWhile (·.isDigit)).isEmpty || isExponent (rest.dropWhile (·.isDigit)))
    | rest => isExponent rest

/-- `repr` and `float` of floats: the text of a finite float is a number with a fraction or an exponent,
and it is read as the float it was written from. -/
structure FloatText (repr : F64 → String) (float? : String → Option F64) : Prop where
  numeral : ∀ x : F64, x.isFinite = true → isFloatNumeral (repr x) = true
  word : ∀ x : F64, x.isFinite = true → isWord (repr x) = true
  reads : ∀ x : F64, x.isFinite = true → float? (repr x) = some x

/-- The bits of the one `nan` of a JSON text. -/
def nan : F64 := ⟨0x7ff8000000000000⟩

def positiveInfinity : F64 := ⟨0x7ff0000000000000⟩

def negativeInfinity : F64 := ⟨0xfff0000000000000⟩

/-- The float as far as a JSON text tells it: a `nan` is like any other. -/
def oneNan (x : F64) : F64 :=
  if x.isFinite ∨ x = positiveInfinity ∨ x = negativeInfinity then x else nan

/-- The word of a float. -/
def floatWord (repr : F64 → String) (x : F64) : String :=
  if x.isFinite then repr x
  else if x = positiveInfinity then "Infinity"
  else if x = negativeInfinity then "-Infinity" else "NaN"

/-- The text of a leaf. -/
def scalarToken (repr : F64 → String) : JsonScalar → Token
  | .null => .word "null"
  | .bool b => .word (if b then "true" else "false")
  | .int i => .word (toString i)
  | .float x => .word (floatWord repr x)
  | .str s => .str s

/-- The leaf of a text. -/
def readToken? (float? : String → Option F64) : Token → Option JsonScalar
  | .str s => some (.str s)
  | .word w =>
      if w = "null" then some .null
      else if w = "true" then some (.bool true)
      else if w = "false" then some (.bool false)
      else if w = "NaN" then some (.float nan)
      else if w = "Infinity" then some (.float positiveInfinity)
      else if w = "-Infinity" then some (.float negativeInfinity)
      else if isIntNumeral w then (Rules.decInt? w).map .int
      else if isFloatNumeral w then (float? w).map .float
      else none

/-- `json.dumps(value, separators=(",", ":"))`. -/
def jsonDumps (e : Escaping) (repr : F64 → String) (d : Json) : String :=
  dumps e (mapLeaves (scalarToken repr) d)

/-- `json.loads`. -/
def jsonLoads? (float? : String → Option F64) (text : String) : Option Json :=
  (loads? text).bind (readLeaves? (readToken? float?))

/-! ## Reading words back -/

theorem toDigits_head {n : Nat} (h : 0 < n) :
    ∃ d ds, Nat.toDigits 10 n = d :: ds ∧ d ≠ '0' := by
  induction n using Nat.strong_induction_on with
  | _ n ih =>
    by_cases hlt : n < 10
    · refine ⟨n.digitChar, [], Nat.toDigits_of_lt_base hlt, ?_⟩
      interval_cases n <;> decide
    · obtain ⟨d, ds, hdigits, hd⟩ := ih (n / 10) (by omega) (by omega)
      refine ⟨d, ds ++ [(n % 10).digitChar], ?_, hd⟩
      rw [Nat.toDigits_of_base_le (by omega) (by omega), hdigits]
      rfl

theorem isNatNumeral_toDigits (n : Nat) : isNatNumeral (Nat.toDigits 10 n) = true := by
  rcases Nat.eq_zero_or_pos n with rfl | h
  · rfl
  obtain ⟨d, ds, hdigits, hd⟩ := toDigits_head h
  have hall : ∀ c ∈ Nat.toDigits 10 n, c.isDigit = true := by
    intro c hc
    exact Nat.isDigit_of_mem_toDigits (by omega) (by omega) hc
  rw [hdigits] at hall ⊢
  unfold isNatNumeral
  split
  · rename_i heq
    cases heq
  · rfl
  · rename_i heq
    cases heq
    simp only [Bool.and_eq_true, bne_iff_ne, ne_eq, List.all_eq_true]
    exact ⟨hd, hall⟩

/-- The text of an integer: its digits, behind a sign if it is negative. -/
theorem toString_int_cases (i : Int) :
    (∃ n : Nat, i = n ∧ (toString i).toList = Nat.toDigits 10 n) ∨
      ∃ n : Nat, i = -n ∧ (toString i).toList = '-' :: Nat.toDigits 10 n := by
  rw [Int.toString_eq_repr]
  cases i with
  | ofNat n => exact .inl ⟨n, rfl, by simp [Int.repr, Nat.repr]⟩
  | negSucc n => exact .inr ⟨n + 1, Int.negSucc_eq n, by simp [Int.repr, Nat.repr]⟩

theorem head_toDigits_ne_minus {n : Nat} {ds : List Char} : Nat.toDigits 10 n ≠ '-' :: ds := by
  intro heq
  have hmem : '-' ∈ Nat.toDigits 10 n := by simp [heq]
  exact absurd (Nat.isDigit_of_mem_toDigits (by omega) (by omega) hmem) (by decide)

theorem isIntNumeral_toString (i : Int) : isIntNumeral (toString i) = true := by
  unfold isIntNumeral
  rcases toString_int_cases i with ⟨n, -, h⟩ | ⟨n, -, h⟩
  · have hminus : unsigned (Nat.toDigits 10 n) = Nat.toDigits 10 n := by
      unfold unsigned
      split
      · exact absurd (by assumption) head_toDigits_ne_minus
      · rfl
    rw [h, hminus]
    exact isNatNumeral_toDigits n
  · rw [h]
    exact isNatNumeral_toDigits n

theorem digits?_toDigits (n : Nat) : Rules.digits? (Nat.toDigits 10 n) = some n := by
  have hfold := foldlM_toDigits n
  unfold Rules.digits?
  split
  · exact absurd (by assumption) Nat.toDigits_ne_nil
  · exact hfold

/-- An integer is read back from its text. -/
theorem decInt?_toString (i : Int) : Rules.decInt? (toString i) = some i := by
  unfold Rules.decInt?
  rcases toString_int_cases i with ⟨n, hi, h⟩ | ⟨n, hi, h⟩
  · rw [h]
    split
    · exact absurd (by assumption) head_toDigits_ne_minus
    · rw [digits?_toDigits, hi]
      rfl
  · rw [h, hi]
    simp [digits?_toDigits]

theorem isWordChar_of_isDigit {c : Char} (h : c.isDigit = true) : isWordChar c = true := by
  simp [isWordChar, Char.isAlphanum, h]

theorem isWord_toString (i : Int) : isWord (toString i) = true := by
  have hdigits : ∀ n c, c ∈ Nat.toDigits 10 n → isWordChar c = true := fun n c hc =>
    isWordChar_of_isDigit (Nat.isDigit_of_mem_toDigits (by omega) (by omega) hc)
  unfold isWord
  rcases toString_int_cases i with ⟨n, -, h⟩ | ⟨n, -, h⟩
  · rw [h]
    simp only [Bool.and_eq_true, List.all_eq_true]
    refine ⟨?_, hdigits n⟩
    cases hcs : Nat.toDigits 10 n with
    | nil => exact absurd hcs Nat.toDigits_ne_nil
    | cons d ds => rfl
  · rw [h]
    simp only [List.isEmpty_cons, Bool.not_false, Bool.true_and, List.all_cons, Bool.and_eq_true,
      List.all_eq_true]
    exact ⟨by decide, hdigits n⟩

/-- A number with a fraction or an exponent is no integer and no literal name. -/
theorem isFloatNumeral_ne {w : String} (h : isFloatNumeral w = true) :
    isIntNumeral w = false ∧ w ≠ "null" ∧ w ≠ "true" ∧ w ≠ "false" ∧ w ≠ "NaN" ∧
      w ≠ "Infinity" ∧ w ≠ "-Infinity" := by
  refine ⟨?_, ?_, ?_, ?_, ?_, ?_, ?_⟩
  · by_contra hint
    have hnat : isNatNumeral (unsigned w.toList) = true := by simpa [isIntNumeral] using hint
    have hall : ∀ c ∈ unsigned w.toList, c.isDigit = true := by
      unfold isNatNumeral at hnat
      split at hnat
      · cases hnat
      · rename_i heq
        simp [heq]
      · rename_i heq
        rw [heq]
        simp only [Bool.and_eq_true, List.all_eq_true] at hnat
        exact hnat.2
    have hdrop : (unsigned w.toList).dropWhile (·.isDigit) = [] := by
      rw [List.dropWhile_eq_nil_iff]
      exact hall
    simp [isFloatNumeral, hdrop, isExponent] at h
  all_goals
    intro heq
    subst heq
    exact absurd h (by decide)

section FloatText

variable {repr : F64 → String} {float? : String → Option F64} (hfloat : FloatText repr float?)

include hfloat

theorem wordsOk_scalarToken (s : JsonScalar) : wordsOk (.leaf (scalarToken repr s)) = true := by
  cases s with
  | null => rfl
  | bool b => cases b <;> rfl
  | int i => exact isWord_toString i
  | float x =>
    show isWord (floatWord repr x) = true
    unfold floatWord
    split
    · exact hfloat.word x (by assumption)
    · split
      · decide
      · split <;> decide
  | str s => rfl

/-- A leaf as far as a JSON text tells it. -/
def telling : JsonScalar → JsonScalar
  | .float x => .float (oneNan x)
  | s => s

theorem readToken?_scalarToken (s : JsonScalar) :
    readToken? float? (scalarToken repr s) = some (telling s) := by
  cases s with
  | null => rfl
  | bool b => cases b <;> rfl
  | str s => rfl
  | int i =>
    have hint := isIntNumeral_toString i
    have hne : ∀ w : String, isIntNumeral w = false → toString i ≠ w := by
      intro w hw heq
      rw [heq, hw] at hint
      cases hint
    simp only [scalarToken, readToken?]
    rw [if_neg (hne _ (by decide)), if_neg (hne _ (by decide)), if_neg (hne _ (by decide)),
      if_neg (hne _ (by decide)), if_neg (hne _ (by decide)), if_neg (hne _ (by decide)),
      if_pos hint, decInt?_toString]
    rfl
  | float x =>
    simp only [scalarToken, telling]
    by_cases hx : x.isFinite = true
    · have hnumeral := hfloat.numeral x hx
      obtain ⟨hint, hnull, htrue, hfalse, hnan, hinf, hneg⟩ := isFloatNumeral_ne hnumeral
      simp only [floatWord, hx, if_true, readToken?]
      rw [if_neg hnull, if_neg htrue, if_neg hfalse, if_neg hnan, if_neg hinf, if_neg hneg,
        if_neg (by simp [hint]), if_pos hnumeral, hfloat.reads x hx]
      simp [oneNan, hx]
    · simp only [floatWord, hx, oneNan]
      by_cases hinf : x = positiveInfinity
      · subst hinf
        rfl
      · by_cases hneg : x = negativeInfinity
        · subst hneg
          rfl
        · simp only [hinf, hneg, or_false, if_false, Bool.false_eq_true]
          rfl

/-- A document is read back from its text, as far as the text tells it. -/
theorem jsonLoads?_jsonDumps (e : Escaping) {d : Json} (hkeys : keysDistinct d) :
    jsonLoads? float? (jsonDumps e repr d) = some (mapLeaves telling d) := by
  have hleaves : allLeaves (fun _ => true) d = true := allLeaves_true d
  have hwords : wordsOk (mapLeaves (scalarToken repr) d) = true :=
    wordsOk_mapLeaves (fun s _ => wordsOk_scalarToken hfloat s) d hleaves
  have hloads := loads?_dumps e hwords (keysDistinct_mapLeaves (scalarToken repr) d hkeys)
  unfold jsonLoads? jsonDumps
  rw [hloads, Option.bind_some]
  exact readLeaves?_mapLeaves (fun s _ => readToken?_scalarToken hfloat s) d hleaves

/-- Documents with one text are one, as far as a text tells them. -/
theorem telling_of_jsonDumps (e : Escaping) {d d' : Json}
    (h : jsonDumps e repr d = jsonDumps e repr d') : mapLeaves telling d = mapLeaves telling d' := by
  have hwords : ∀ d : Json, wordsOk (mapLeaves (scalarToken repr) d) = true := fun d =>
    wordsOk_mapLeaves (fun s _ => wordsOk_scalarToken hfloat s) d (allLeaves_true d)
  have htokens := dumps_injective e (hwords d) (hwords d') h
  have hread := readLeaves?_mapLeaves (fun s (_ : (fun _ => true) s = true) =>
    readToken?_scalarToken hfloat s) d (allLeaves_true d)
  rw [htokens, readLeaves?_mapLeaves (fun s (_ : (fun _ => true) s = true) =>
    readToken?_scalarToken hfloat s) d' (allLeaves_true d')] at hread
  exact (Option.some.inj hread).symm

end FloatText

/-- The text of a document depends on what a text tells of it only. -/
theorem jsonDumps_telling (e : Escaping) (repr : F64 → String) {d d' : Json}
    (h : mapLeaves telling d = mapLeaves telling d') : jsonDumps e repr d = jsonDumps e repr d' := by
  have hword : ∀ s, scalarToken repr (telling s) = scalarToken repr s := by
    intro s
    cases s with
    | null | bool _ | int _ | str _ => rfl
    | float x =>
      simp only [telling, scalarToken, oneNan]
      split
      · rfl
      · rename_i hx
        have hnan : floatWord repr nan = "NaN" := rfl
        simp only [not_or] at hx
        rw [hnan]
        simp [floatWord, hx]
  have hmap : ∀ d : Json, mapLeaves (scalarToken repr) (mapLeaves telling d) =
      mapLeaves (scalarToken repr) d := by
    intro d
    rw [mapLeaves_mapLeaves]
    exact mapLeaves_congr hword d
  unfold jsonDumps
  rw [← hmap d, h, hmap d']

/-! ## A host -/

/-- A text of floats that `FloatText` holds of: the bits in decimal, which is `0.0` at zero. -/
def bitsRepr (x : F64) : String := toString x.bits.toNat ++ ".0"

def bitsFloat? (w : String) : Option F64 :=
  (Rules.digits? (w.toList.takeWhile (·.isDigit))).map fun n => ⟨UInt64.ofNat n⟩

theorem bits_floatText : FloatText bitsRepr bitsFloat? := by
  have htext : ∀ x : F64, (bitsRepr x).toList = Nat.toDigits 10 x.bits.toNat ++ ['.', '0'] := by
    intro x
    simp [bitsRepr, Nat.repr]
  have hdigit : ∀ n c, c ∈ Nat.toDigits 10 n → c.isDigit = true := fun n c hc =>
    Nat.isDigit_of_mem_toDigits (by omega) (by omega) hc
  have htake : ∀ n, (Nat.toDigits 10 n ++ ['.', '0']).takeWhile (·.isDigit) = Nat.toDigits 10 n := by
    intro n
    rw [List.takeWhile_append_of_pos (hdigit n)]
    simp
  have hdrop : ∀ n, (Nat.toDigits 10 n ++ ['.', '0']).dropWhile (·.isDigit) = ['.', '0'] := by
    intro n
    rw [List.dropWhile_append_of_pos (hdigit n)]
    simp
  have hminus : ∀ n, unsigned (Nat.toDigits 10 n ++ ['.', '0']) = Nat.toDigits 10 n ++ ['.', '0'] := by
    intro n
    cases hcs : Nat.toDigits 10 n with
    | nil => exact absurd hcs Nat.toDigits_ne_nil
    | cons d ds =>
      have hd : d.isDigit = true := hdigit n d (by simp [hcs])
      unfold unsigned
      split
      · rename_i heq
        cases heq
        exact absurd hd (by decide)
      · rfl
  refine ⟨?_, ?_, ?_⟩
  · intro x _
    simp only [isFloatNumeral, htext, hminus, htake, hdrop, isNatNumeral_toDigits]
    decide
  · intro x _
    have hchars : ∀ c ∈ Nat.toDigits 10 x.bits.toNat, isWordChar c = true := fun c hc =>
      isWordChar_of_isDigit (hdigit _ c hc)
    have hend : ∀ c ∈ ['.', '0'], isWordChar c = true := by
      intro c hc
      rcases List.mem_pair.mp hc with rfl | rfl <;> rfl
    unfold isWord
    rw [htext]
    simp only [Bool.and_eq_true, List.all_append, List.all_eq_true]
    refine ⟨?_, hchars, hend⟩
    simp
  · intro x _
    unfold bitsFloat?
    rw [htext, htake, digits?_toDigits, Option.map_some, UInt64.ofNat_toNat]

end FactGraph.Db
