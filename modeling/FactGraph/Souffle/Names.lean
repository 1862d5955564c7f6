import Mathlib.Tactic.IntervalCases
import FactGraph.Souffle.ViewGen

/-!
# The names of relations

`adapters/souffle/pred_norm.py`: the engine name of a predicate, how it is read back, and the other
names of a generated program.

A colon becomes one underscore, an underscore two, and a character that is neither a letter nor a
digit an underscore on either side of its code. Nothing marks where a character ends, so an id is
read back just if no colon stands where its underscore would join the next one, or would open a code
(`denormalizeEnginePred_normalizePredId`).
-/

namespace FactGraph.Souffle

/-! ## Reading back -/

/-- A character that stands for itself. -/
def isPlain (c : Char) : Bool := c.toNat < 128 && c.isAlphanum

/-- `[0-9a-f]`. -/
def isLowerHex (c : Char) : Bool := ('0' ≤ c && c ≤ '9') || ('a' ≤ c && c ≤ 'f')

def hexOf (c : Char) : Nat := if c ≤ '9' then c.toNat - 48 else c.toNat - 87

/-- The character `_ENCODED_HEX_RE` matches behind an underscore, and what follows the match. -/
def encodedHex? : List Char → Option (Char × List Char)
  | 'h' :: x :: y :: '_' :: rest =>
      if isLowerHex x && isLowerHex y then some (Char.ofNat (hexOf x * 16 + hexOf y), rest) else none
  | _ => none

theorem encodedHex?_length {cs rest : List Char} {c : Char} (h : encodedHex? cs = some (c, rest)) :
    cs.length = rest.length + 4 := by
  unfold encodedHex? at h
  split at h
  · split at h
    · cases h
      rfl
    · cases h
  · cases h

/-- The loop of `denormalize_engine_pred`. -/
def denormalizeChars : List Char → List Char
  | [] => []
  | '_' :: '_' :: rest => '_' :: denormalizeChars rest
  | '_' :: rest =>
      match _h : encodedHex? rest with
      | some (c, tail) => c :: denormalizeChars tail
      | none => ':' :: denormalizeChars rest
  | c :: rest => c :: denormalizeChars rest
termination_by cs => cs.length
decreasing_by
  · simp only [List.length_cons]
    omega
  · have hlen := encodedHex?_length _h
    simp only [List.length_cons]
    omega
  · simp only [List.length_cons]
    omega
  · simp only [List.length_cons]
    omega

/-- `denormalize_engine_pred`. -/
def denormalizeEnginePred (enginePred : String) : Except GenErr String :=
  match enginePred.toList with
  | 'p' :: '_' :: encoded => .ok (String.ofList (denormalizeChars encoded))
  | _ => .error (.valueError "engine_pred must start with 'p_'")

/-! ## Names as characters -/

/-- What `normalize_pred_id` writes behind `p_`. -/
def normalizeChars (cs : List Char) : List Char := cs.flatMap fun c => (normalizeChar c).toList

theorem toList_normalizePredId (predId : String) :
    (normalizePredId predId).toList = 'p' :: '_' :: normalizeChars predId.toList := by
  have hjoin : ∀ cs : List Char, (String.join (cs.map normalizeChar)).toList = normalizeChars cs := by
    intro cs
    induction cs with
    | nil => rfl
    | cons c cs ih => simpa [normalizeChars] using ih
  unfold normalizePredId
  rw [String.toList_append, hjoin]
  rfl

theorem normalizeChars_append (cs ds : List Char) :
    normalizeChars (cs ++ ds) = normalizeChars cs ++ normalizeChars ds := by
  simp [normalizeChars]

theorem normalizeChars_cons (c : Char) (cs : List Char) :
    normalizeChars (c :: cs) = (normalizeChar c).toList ++ normalizeChars cs := by
  simp [normalizeChars]

theorem normalizeChar_plain {c : Char} (h : isPlain c = true) : (normalizeChar c).toList = [c] := by
  unfold normalizeChar
  rw [if_pos (by simpa [isPlain] using h)]
  simp

theorem normalizeChar_colon : (normalizeChar ':').toList = ['_'] := by decide

theorem normalizeChar_underscore : (normalizeChar '_').toList = ['_', '_'] := by decide

/-- A character that is written as its code. -/
def isOther (c : Char) : Bool := !isPlain c && c != ':' && c != '_'

theorem normalizeChar_other {c : Char} (h : isOther c = true) :
    (normalizeChar c).toList = '_' :: 'h' :: (hex02 c.toNat).toList ++ ['_'] := by
  simp only [isOther, Bool.and_eq_true, bne_iff_ne, ne_eq, Bool.not_eq_true'] at h
  unfold normalizeChar
  rw [if_neg (by simpa [isPlain] using h.1.1), if_neg h.1.2, if_neg h.2]
  simp

/-- The four kinds of characters. -/
theorem char_cases (c : Char) : isPlain c = true ∨ c = ':' ∨ c = '_' ∨ isOther c = true := by
  by_cases hplain : isPlain c = true
  · exact .inl hplain
  · by_cases hcolon : c = ':'
    · exact .inr (.inl hcolon)
    · by_cases hunder : c = '_'
      · exact .inr (.inr (.inl hunder))
      · simp [isOther, hplain, hcolon, hunder]

/-- What is no letter or digit is written with an underscore first. -/
theorem head_normalizeChar {c : Char} (h : isPlain c = false) :
    ∃ cs, (normalizeChar c).toList = '_' :: cs := by
  rcases char_cases c with hc | rfl | rfl | hc
  · rw [h] at hc
    cases hc
  · exact ⟨[], normalizeChar_colon⟩
  · exact ⟨['_'], normalizeChar_underscore⟩
  · exact ⟨_, normalizeChar_other hc⟩

theorem isPlain_ne_underscore {c : Char} (h : isPlain c = true) : c ≠ '_' := by
  intro heq
  subst heq
  exact absurd h (by decide)

theorem isPlain_of_isLowerHex {c : Char} (h : isLowerHex c = true) : isPlain c = true := by
  have hrange : (48 ≤ c.toNat ∧ c.toNat ≤ 57) ∨ (97 ≤ c.toNat ∧ c.toNat ≤ 102) := by
    simp only [isLowerHex, Bool.or_eq_true, Bool.and_eq_true, decide_eq_true_eq] at h
    exact h
  have hall : ∀ n : Fin 128, (48 ≤ n.val ∧ n.val ≤ 57) ∨ (97 ≤ n.val ∧ n.val ≤ 102) →
      isPlain (Char.ofNat n) = true := by decide
  have hc := hall ⟨c.toNat, by omega⟩ hrange
  simpa using hc

/-! ## Codes -/

/-- A code of two digits. -/
theorem hex02_small {n : Nat} (h : n < 256) :
    ∃ x y, (hex02 n).toList = [x, y] ∧ isLowerHex x = true ∧ isLowerHex y = true ∧
      Char.ofNat (hexOf x * 16 + hexOf y) = Char.ofNat n := by
  have hall : ∀ n : Fin 256, ((hex02 n).toList.length = 2 ∧
      (hex02 n).toList.all isLowerHex = true) ∧
        hexOf ((hex02 n).toList.getD 0 '0') * 16 + hexOf ((hex02 n).toList.getD 1 '0') = n.val := by
    decide +kernel
  obtain ⟨⟨hlen, hhex⟩, hvalue⟩ := hall ⟨n, h⟩
  obtain ⟨x, y, hxy⟩ := List.length_eq_two.mp hlen
  simp only [hxy, List.all_cons, List.all_nil, Bool.and_true, Bool.and_eq_true] at hhex
  simp only [hxy, List.getD_cons_zero, List.getD_cons_succ] at hvalue
  exact ⟨x, y, hxy, hhex.1, hhex.2, by rw [hvalue]⟩

theorem isLowerHex_toDigits (n : Nat) : ∀ c ∈ Nat.toDigits 16 n, isLowerHex c = true := by
  induction n using Nat.strongRecOn with
  | _ n ih =>
    have hdigit : ∀ d : Fin 16, isLowerHex d.val.digitChar = true := by decide
    by_cases h : n < 16
    · rw [Nat.toDigits_of_lt_base h]
      intro c hc
      rw [List.mem_singleton.mp hc]
      exact hdigit ⟨n, h⟩
    · rw [Nat.toDigits_of_base_le (by omega) (by omega)]
      intro c hc
      rcases List.mem_append.mp hc with hc | hc
      · exact ih (n / 16) (Nat.div_lt_self (by omega) (by omega)) c hc
      · rw [List.mem_singleton.mp hc]
        exact hdigit ⟨n % 16, Nat.mod_lt _ (by omega)⟩

theorem isLowerHex_hex02 {n : Nat} {c : Char} (h : c ∈ (hex02 n).toList) : isLowerHex c = true := by
  unfold hex02 at h
  rw [String.toList_ofList] at h
  rcases List.mem_append.mp h with h | h
  · rw [(List.mem_replicate.mp h).2]
    decide
  · exact isLowerHex_toDigits n c h

/-- A code of more digits than two. -/
theorem hex02_large {n : Nat} (h : 256 ≤ n) :
    ∃ x y z cs, (hex02 n).toList = x :: y :: z :: cs ∧ z ≠ '_' := by
  have hfirst : Nat.toDigits 16 n = Nat.toDigits 16 (n / 16) ++ [(n % 16).digitChar] :=
    Nat.toDigits_of_base_le (by omega) (by omega)
  have hsecond : Nat.toDigits 16 (n / 16) =
      Nat.toDigits 16 (n / 16 / 16) ++ [(n / 16 % 16).digitChar] :=
    Nat.toDigits_of_base_le (by omega) (by omega)
  have hlen : 3 ≤ (Nat.toDigits 16 n).length := by
    rw [hfirst, hsecond]
    have hpos : 0 < (Nat.toDigits 16 (n / 16 / 16)).length :=
      List.length_pos_of_ne_nil Nat.toDigits_ne_nil
    simp only [List.length_append, List.length_singleton]
    omega
  have hcode : (hex02 n).toList = Nat.toDigits 16 n := by
    unfold hex02
    rw [String.toList_ofList, Nat.sub_eq_zero_of_le (by omega)]
    rfl
  rw [hcode]
  match hdigits : Nat.toDigits 16 n with
  | x :: y :: z :: cs =>
    refine ⟨x, y, z, cs, rfl, ?_⟩
    exact isPlain_ne_underscore (isPlain_of_isLowerHex (isLowerHex_toDigits n z (by simp [hdigits])))
  | [] | [_] | [_, _] =>
    rw [hdigits] at hlen
    simp at hlen

/-! ## Reading one character -/

theorem denormalizeChars_plain {c : Char} (h : isPlain c = true) (rest : List Char) :
    denormalizeChars (c :: rest) = c :: denormalizeChars rest := by
  have hne := isPlain_ne_underscore h
  rw [denormalizeChars.eq_def]
  split
  · rename_i heq
    cases heq
  · rename_i heq
    cases heq
    exact absurd rfl hne
  · rename_i heq
    cases heq
    exact absurd rfl hne
  · rename_i heq
    cases heq
    rfl

theorem denormalizeChars_underscore (rest : List Char) :
    denormalizeChars ('_' :: '_' :: rest) = '_' :: denormalizeChars rest := by
  rw [denormalizeChars]

/-- An underscore that is not doubled opens a code or is a colon. -/
theorem denormalizeChars_single {rest : List Char} (h : rest.head? ≠ some '_') :
    denormalizeChars ('_' :: rest) =
      match encodedHex? rest with
      | some (c, tail) => c :: denormalizeChars tail
      | none => ':' :: denormalizeChars rest := by
  rw [denormalizeChars.eq_def]
  split
  · rename_i heq
    cases heq
  · rename_i heq
    cases heq
    exact absurd rfl h
  · rename_i heq
    cases heq
    split
    · rename_i hcode
      simp only [hcode]
    · rename_i hcode
      simp only [hcode]
  · rename_i hnone heq
    cases heq
    exact absurd rfl hnone

theorem ofNat_toNat_of_isOther {c : Char} (h : isOther c = true) (hc : c.toNat < 256)
    (rest : List Char) :
    denormalizeChars ((normalizeChar c).toList ++ rest) = c :: denormalizeChars rest := by
  obtain ⟨x, y, hcode, hx, hy, hvalue⟩ := hex02_small hc
  rw [normalizeChar_other h, hcode]
  have hsingle := @denormalizeChars_single ('h' :: x :: y :: '_' :: rest) (by simp)
  simp only [encodedHex?, hx, hy, Bool.and_self, if_true, hvalue, Char.ofNat_toNat] at hsingle
  exact hsingle

/-- A code of three digits or more is read as a colon and its digits. -/
theorem denormalizeChars_large {c : Char} (h : isOther c = true) (hc : 256 ≤ c.toNat)
    (rest : List Char) :
    ∃ cs, denormalizeChars ((normalizeChar c).toList ++ rest) = ':' :: cs := by
  obtain ⟨x, y, z, cs, hcode, hz⟩ := hex02_large hc
  rw [normalizeChar_other h, hcode]
  have hsingle := @denormalizeChars_single ('h' :: x :: y :: z :: (cs ++ '_' :: rest)) (by simp)
  have hnone : encodedHex? ('h' :: x :: y :: z :: (cs ++ '_' :: rest)) = none := by
    unfold encodedHex?
    split
    · rename_i heq
      cases heq
      exact absurd rfl hz
    · rfl
  rw [hnone] at hsingle
  exact ⟨denormalizeChars ('h' :: x :: y :: z :: (cs ++ '_' :: rest)), by simpa using hsingle⟩

/-! ## Ids that are read back -/

/-- What follows a colon makes its underscore the start of a code. -/
def opensCode : List Char → Bool
  | 'h' :: x :: y :: z :: _ => isLowerHex x && isLowerHex y && !isPlain z
  | _ => false

/-- No character beyond the code `ff`, no colon before anything but a letter or digit or the end, and
no colon that with an `h`, two digits of a code and the next underscore makes a code. -/
def separates : List Char → Bool
  | [] => true
  | ':' :: rest => rest.head?.all isPlain && !opensCode rest && separates rest
  | c :: rest => c.toNat < 256 && separates rest

/-- An id whose name is read back. -/
def Separated (predId : String) : Prop := separates predId.toList = true

instance (predId : String) : Decidable (Separated predId) := inferInstanceAs (Decidable (_ = true))

theorem separates_cons {c : Char} (hc : c ≠ ':') (rest : List Char) :
    separates (c :: rest) = (decide (c.toNat < 256) && separates rest) := by
  rw [separates.eq_def]
  split
  · rename_i heq
    cases heq
  · rename_i heq
    cases heq
    exact absurd rfl hc
  · rename_i heq
    cases heq
    rfl

theorem head_normalizeChars {rest : List Char} :
    (normalizeChars rest).head? = some '_' ↔ ∃ c cs, rest = c :: cs ∧ isPlain c = false := by
  cases rest with
  | nil => simp [normalizeChars]
  | cons c cs =>
    rw [normalizeChars_cons]
    by_cases hc : isPlain c = true
    · rw [normalizeChar_plain hc]
      simp only [List.singleton_append, List.head?_cons, Option.some.injEq, List.cons.injEq]
      constructor
      · intro h
        exact absurd h (isPlain_ne_underscore hc)
      · intro h
        obtain ⟨d, ds, ⟨rfl, rfl⟩, hd⟩ := h
        rw [hc] at hd
        cases hd
    · obtain ⟨ds, hds⟩ := head_normalizeChar (by simpa using hc)
      rw [hds]
      simp only [List.cons_append, List.head?_cons, List.cons.injEq, true_iff]
      exact ⟨c, cs, ⟨rfl, rfl⟩, by simpa using hc⟩

/-- A written text starts with its first character if that is not written with an underscore. -/
theorem normalizeChars_eq_cons {rest cs : List Char} {c : Char} (h : normalizeChars rest = c :: cs)
    (hc : c ≠ '_') : ∃ r, rest = c :: r ∧ normalizeChars r = cs := by
  cases rest with
  | nil => cases h
  | cons d ds =>
    rw [normalizeChars_cons] at h
    by_cases hd : isPlain d = true
    · rw [normalizeChar_plain hd] at h
      cases h
      exact ⟨ds, rfl, rfl⟩
    · obtain ⟨es, hes⟩ := head_normalizeChar (by simpa using hd)
      rw [hes] at h
      cases h
      exact absurd rfl hc

theorem opensCode_of_encodedHex? {rest : List Char} {p : Char × List Char}
    (h : encodedHex? (normalizeChars rest) = some p) : opensCode rest = true := by
  unfold encodedHex? at h
  split at h
  · rename_i x y tail heq
    split at h
    · rename_i hxy
      simp only [Bool.and_eq_true] at hxy
      have hx := isPlain_ne_underscore (isPlain_of_isLowerHex hxy.1)
      have hy := isPlain_ne_underscore (isPlain_of_isLowerHex hxy.2)
      obtain ⟨r₁, rfl, h₁⟩ := normalizeChars_eq_cons heq (by decide)
      obtain ⟨r₂, rfl, h₂⟩ := normalizeChars_eq_cons h₁ hx
      obtain ⟨r₃, rfl, h₃⟩ := normalizeChars_eq_cons h₂ hy
      obtain ⟨z, tail', rfl, hz⟩ := head_normalizeChars.mp (by rw [h₃]; rfl)
      simp [opensCode, hxy.1, hxy.2, hz]
    · cases h
  · cases h

theorem encodedHex?_of_opensCode {rest : List Char} (h : opensCode rest = true) :
    ∃ p, encodedHex? (normalizeChars rest) = some p := by
  unfold opensCode at h
  split at h
  · rename_i x y z tail
    simp only [Bool.and_eq_true, Bool.not_eq_true'] at h
    obtain ⟨cs, hcs⟩ := head_normalizeChar h.2
    have hh : isPlain 'h' = true := by decide
    rw [normalizeChars_cons, normalizeChars_cons, normalizeChars_cons, normalizeChars_cons,
      normalizeChar_plain hh, normalizeChar_plain (isPlain_of_isLowerHex h.1.1),
      normalizeChar_plain (isPlain_of_isLowerHex h.1.2), hcs]
    simp [encodedHex?, h.1.1, h.1.2]
  · cases h

/-! ### Lengths -/

theorem length_normalizeChar {c : Char} (hc : c.toNat < 256) :
    (normalizeChar c).toList.length ≤ 5 := by
  rcases char_cases c with h | rfl | rfl | h
  · rw [normalizeChar_plain h]
    simp
  · rw [normalizeChar_colon]
    simp
  · rw [normalizeChar_underscore]
    simp
  · obtain ⟨x, y, hcode, -⟩ := hex02_small hc
    rw [normalizeChar_other h, hcode]
    simp

theorem toNat_encodedHex? {cs tail : List Char} {c : Char} (h : encodedHex? cs = some (c, tail)) :
    c.toNat < 256 ∧ ∃ ds, cs = ds ++ tail := by
  unfold encodedHex? at h
  split at h
  · rename_i x y rest
    split at h
    · rename_i hxy
      cases h
      refine ⟨?_, ['h', x, y, '_'], rfl⟩
      have hbound : ∀ d : Char, isLowerHex d = true → hexOf d < 16 := by
        intro d hd
        have hrange : (48 ≤ d.toNat ∧ d.toNat ≤ 57) ∨ (97 ≤ d.toNat ∧ d.toNat ≤ 102) := by
          simp only [isLowerHex, Bool.or_eq_true, Bool.and_eq_true, decide_eq_true_eq] at hd
          exact hd
        unfold hexOf
        split
        · rename_i hle
          have : d.toNat ≤ 57 := hle
          omega
        · omega
      simp only [Bool.and_eq_true] at hxy
      have hx := hbound x hxy.1
      have hy := hbound y hxy.2
      have hread : ∀ n : Fin 256, (Char.ofNat n.val).toNat = n.val := by decide +kernel
      have hcode := hread ⟨hexOf x * 16 + hexOf y, by omega⟩
      simp only at hcode
      omega
    · cases h
  · cases h

/-- What is read from a text is written no longer than the text. -/
theorem length_denormalizeChars (w : List Char) (hw : ∀ c ∈ w, isPlain c = true ∨ c = '_') :
    (normalizeChars (denormalizeChars w)).length ≤ w.length := by
  fun_induction denormalizeChars w with
  | case1 => simp [normalizeChars]
  | case2 rest ih =>
    have htail := ih fun c hc => hw c (by simp [hc])
    rw [normalizeChars_cons, normalizeChar_underscore]
    simp only [List.length_append, List.length_cons, List.length_nil]
    omega
  | case3 rest hne c tail hcode ih =>
    obtain ⟨hc, ds, hds⟩ := toNat_encodedHex? hcode
    have hlen := encodedHex?_length hcode
    have htail := ih fun d hd => hw d (by simp [hds, hd])
    have hchar := length_normalizeChar hc
    rw [normalizeChars_cons]
    simp only [List.length_append, List.length_cons]
    omega
  | case4 rest hne hcode ih =>
    have htail := ih fun c hc => hw c (by simp [hc])
    rw [normalizeChars_cons, normalizeChar_colon]
    simp only [List.length_append, List.length_cons, List.length_nil]
    omega
  | case5 c rest h1 h2 ih =>
    have htail := ih fun d hd => hw d (by simp [hd])
    have hc : isPlain c = true := by
      rcases hw c (by simp) with hc | rfl
      · exact hc
      · exact absurd rfl h2
    rw [normalizeChars_cons, normalizeChar_plain hc]
    simp only [List.length_append, List.length_cons, List.length_nil]
    omega

theorem normalizeChars_word (cs : List Char) :
    ∀ c ∈ normalizeChars cs, isPlain c = true ∨ c = '_' := by
  intro c hc
  obtain ⟨d, -, hd⟩ := List.mem_flatMap.mp hc
  rcases char_cases d with h | rfl | rfl | h
  · rw [normalizeChar_plain h] at hd
    rw [List.mem_singleton.mp hd]
    exact .inl h
  · rw [normalizeChar_colon] at hd
    exact .inr (List.mem_singleton.mp hd)
  · rw [normalizeChar_underscore] at hd
    exact .inr (by simpa using hd)
  · rw [normalizeChar_other h] at hd
    simp only [List.cons_append, List.mem_cons, List.mem_append, List.not_mem_nil, or_false] at hd
    rcases hd with rfl | rfl | hd | rfl
    · exact .inr rfl
    · exact .inl (by decide)
    · exact .inl (isPlain_of_isLowerHex (isLowerHex_hex02 hd))
    · exact .inr rfl

/-! ### Reading a name back -/

theorem head_isPlain {rest : List Char} (h : rest.head?.all isPlain = true) :
    (normalizeChars rest).head? ≠ some '_' := by
  intro hhead
  obtain ⟨c, cs, rfl, hc⟩ := head_normalizeChars.mp hhead
  rw [List.head?_cons, Option.all_some, hc] at h
  cases h

theorem denormalizeChars_of_separates {cs : List Char} (h : separates cs = true) :
    denormalizeChars (normalizeChars cs) = cs := by
  induction cs with
  | nil => simp [normalizeChars, denormalizeChars]
  | cons c rest ih =>
    rw [normalizeChars_cons]
    rcases char_cases c with hc | rfl | rfl | hc
    · have hne : c ≠ ':' := by
        intro heq
        subst heq
        exact absurd hc (by decide)
      rw [separates_cons hne, Bool.and_eq_true] at h
      rw [normalizeChar_plain hc, List.singleton_append, denormalizeChars_plain hc, ih h.2]
    · simp only [separates, Bool.and_eq_true, Bool.not_eq_true'] at h
      -- neither the second half of an underscore nor the start of a code follows
      have hnone : encodedHex? (normalizeChars rest) = none := by
        cases hcode : encodedHex? (normalizeChars rest) with
        | none => rfl
        | some p =>
          rw [opensCode_of_encodedHex? hcode] at h
          cases h.1.2
      rw [normalizeChar_colon, List.singleton_append, denormalizeChars_single (head_isPlain h.1.1),
        hnone]
      simp only [ih h.2]
    · rw [separates_cons (by decide), Bool.and_eq_true] at h
      rw [normalizeChar_underscore]
      show denormalizeChars ('_' :: '_' :: normalizeChars rest) = _
      rw [denormalizeChars_underscore, ih h.2]
    · have hne : c ≠ ':' := by
        intro heq
        subst heq
        exact absurd hc (by decide)
      rw [separates_cons hne, Bool.and_eq_true, decide_eq_true_eq] at h
      rw [ofNat_toNat_of_isOther hc h.1, ih h.2]

theorem separates_of_denormalizeChars {cs : List Char} (h : denormalizeChars (normalizeChars cs) = cs) :
    separates cs = true := by
  induction cs with
  | nil => rfl
  | cons c rest ih =>
    rw [normalizeChars_cons] at h
    rcases char_cases c with hc | rfl | rfl | hc
    · have hne : c ≠ ':' := by
        intro heq
        subst heq
        exact absurd hc (by decide)
      rw [normalizeChar_plain hc, List.singleton_append, denormalizeChars_plain hc] at h
      have hsmall : c.toNat < 128 := by
        simp only [isPlain, Bool.and_eq_true, decide_eq_true_eq] at hc
        exact hc.1
      rw [separates_cons hne, ih (List.cons.inj h).2]
      simp only [Bool.and_true, decide_eq_true_eq]
      omega
    · rw [normalizeChar_colon, List.singleton_append] at h
      by_cases hhead : (normalizeChars rest).head? = some '_'
      · obtain ⟨tail, htail⟩ := List.head?_eq_some_iff.mp hhead
        rw [htail, denormalizeChars_underscore] at h
        cases h
      · rw [denormalizeChars_single hhead] at h
        cases hcode : encodedHex? (normalizeChars rest) with
        | some p =>
          obtain ⟨c, tail⟩ := p
          simp only [hcode] at h
          -- the text behind the code is too short for what follows the colon
          obtain ⟨-, ds, hds⟩ := toNat_encodedHex? hcode
          have hlen := encodedHex?_length hcode
          have hword := normalizeChars_word rest
          have hshort := length_denormalizeChars tail fun d hd => hword d (by simp [hds, hd])
          rw [(List.cons.inj h).2] at hshort
          omega
        | none =>
          simp only [hcode] at h
          have hplain : rest.head?.all isPlain = true := by
            cases rest with
            | nil => rfl
            | cons d ds =>
              rw [List.head?_cons, Option.all_some]
              by_contra hd
              exact hhead (head_normalizeChars.mpr ⟨d, ds, rfl, by simpa using hd⟩)
          have hopens : opensCode rest = false := by
            by_contra hopens
            obtain ⟨p, hp⟩ := encodedHex?_of_opensCode (by simpa using hopens)
            rw [hcode] at hp
            cases hp
          simp [separates, hplain, hopens, ih (List.cons.inj h).2]
    · rw [normalizeChar_underscore] at h
      change denormalizeChars ('_' :: '_' :: normalizeChars rest) = _ at h
      rw [denormalizeChars_underscore] at h
      rw [separates_cons (by decide), ih (List.cons.inj h).2]
      rfl
    · have hne : c ≠ ':' := by
        intro heq
        subst heq
        exact absurd hc (by decide)
      by_cases hsmall : c.toNat < 256
      · rw [ofNat_toNat_of_isOther hc hsmall] at h
        rw [separates_cons hne, ih (List.cons.inj h).2]
        simpa using hsmall
      · obtain ⟨ds, hds⟩ := denormalizeChars_large hc (by omega) (normalizeChars rest)
        rw [hds] at h
        exact absurd (List.cons.inj h).1.symm hne

/-- An id is read back just if it is separated. -/
theorem denormalizeEnginePred_normalizePredId (predId : String) :
    denormalizeEnginePred (normalizePredId predId) = .ok predId ↔ Separated predId := by
  have hread : denormalizeEnginePred (normalizePredId predId) =
      .ok (String.ofList (denormalizeChars (normalizeChars predId.toList))) := by
    unfold denormalizeEnginePred
    rw [toList_normalizePredId]
    rfl
  rw [hread]
  constructor
  · intro h
    injection h with h
    exact separates_of_denormalizeChars (by rw [← String.toList_inj, String.toList_ofList] at h; exact h)
  · intro h
    rw [denormalizeChars_of_separates h, String.ofList_toList]

/-- Separated ids of one name are one id. -/
theorem normalizeChars_inj {cs ds : List Char} (hcs : separates cs = true)
    (hds : separates ds = true) (h : normalizeChars cs = normalizeChars ds) : cs = ds := by
  rw [← denormalizeChars_of_separates hcs, h, denormalizeChars_of_separates hds]

/-! ## The witness relation of another predicate -/

theorem separates_of_append {s t : List Char} (h : separates (s ++ t) = true) :
    separates s = true := by
  induction s with
  | nil => rfl
  | cons c s ih =>
    by_cases hc : c = ':'
    · subst hc
      simp only [List.cons_append, separates, Bool.and_eq_true, Bool.not_eq_true'] at h ⊢
      refine ⟨⟨?_, ?_⟩, ih h.2⟩
      · cases s with
        | nil => rfl
        | cons d s => exact h.1.1
      · rw [← Bool.not_eq_true]
        intro hopens
        have happ : opensCode (s ++ t) = true := by
          unfold opensCode at hopens
          split at hopens
          · exact hopens
          · cases hopens
        rw [happ] at h
        cases h.1.2
    · rw [List.cons_append, separates_cons hc, Bool.and_eq_true] at h
      rw [separates_cons hc, Bool.and_eq_true]
      exact ⟨h.1, ih h.2⟩

/-- All that is no letter or digit closes a code alike. -/
theorem opensCode_boundary {s t u : List Char} {d e : Char} (hd : isPlain d = false)
    (he : isPlain e = false) : opensCode (s ++ d :: t) = opensCode (s ++ e :: u) := by
  have hhex : ∀ c, isPlain c = false → isLowerHex c = false := by
    intro c hc
    by_contra hlower
    rw [isPlain_of_isLowerHex (by simpa using hlower)] at hc
    cases hc
  have hfirst : ∀ c t, isPlain c = false → opensCode (c :: t) = false := by
    intro c t hc
    unfold opensCode
    split
    · rename_i heq
      cases heq
      exact absurd hc (by decide)
    · rfl
  have hsecond : ∀ a c t, isPlain c = false → opensCode (a :: c :: t) = false := by
    intro a c t hc
    unfold opensCode
    split
    · rename_i heq
      cases heq
      simp [hhex c hc]
    · rfl
  have hthird : ∀ a b c t, isPlain c = false → opensCode (a :: b :: c :: t) = false := by
    intro a b c t hc
    unfold opensCode
    split
    · rename_i heq
      cases heq
      simp [hhex c hc]
    · rfl
  -- a code is `h`, two hexadecimal digits and then no letter or digit: four characters decide
  match s with
  | [] => exact (hfirst d t hd).trans (hfirst e u he).symm
  | [a] => exact (hsecond a d t hd).trans (hsecond a e u he).symm
  | [a, b] => exact (hthird a b d t hd).trans (hthird a b e u he).symm
  | [a, b, c] =>
    show opensCode (a :: b :: c :: d :: t) = opensCode (a :: b :: c :: e :: u)
    by_cases ha : a = 'h'
    · subst ha
      simp [opensCode, hd, he]
    · have hother : ∀ z zs, opensCode (a :: b :: c :: z :: zs) = false := by
        intro z zs
        unfold opensCode
        split
        · rename_i heq
          cases heq
          exact absurd rfl ha
        · rfl
      rw [hother, hother]
  | a :: b :: c :: z :: s =>
    show opensCode (a :: b :: c :: z :: (s ++ d :: t)) = opensCode (a :: b :: c :: z :: (s ++ e :: u))
    unfold opensCode
    split
    · rename_i heq
      cases heq
      rfl
    · rename_i hnot
      split
      · rename_i heq
        cases heq
        exact absurd rfl (hnot b c z (s ++ d :: t))
      · rfl

/-- Whether the beginning of an id is read back is decided before what is no letter or digit. -/
theorem separates_boundary {s t u : List Char} {d e : Char} (hd : isPlain d = false)
    (he : isPlain e = false) (h : separates (s ++ d :: t) = true)
    (hu : separates (e :: u) = true) : separates (s ++ e :: u) = true := by
  induction s with
  | nil => exact hu
  | cons c s ih =>
    by_cases hc : c = ':'
    · subst hc
      simp only [List.cons_append, separates, Bool.and_eq_true, Bool.not_eq_true'] at h ⊢
      refine ⟨⟨?_, ?_⟩, ih h.2⟩
      · cases s with
        | nil =>
          rw [List.nil_append, List.head?_cons, Option.all_some, hd] at h
          cases h.1.1
        | cons z s => exact h.1.1
      · rw [← opensCode_boundary hd he]
        exact h.1.2
    · rw [List.cons_append, separates_cons hc, Bool.and_eq_true] at h
      rw [List.cons_append, separates_cons hc, Bool.and_eq_true]
      exact ⟨h.1, ih h.2⟩

/-- `q` is named as the witness relation of `p`: `p` with `:w`, or, where `p` ends with a colon or
with a code, what that colon or code is written like and a `w`. -/
def WitnessClash (p q : String) : Prop :=
  q = p ++ ":w" ∨ (∃ s, p = s ++ ":" ∧ q = s ++ "_w") ∨
    ∃ s c, isOther c = true ∧ c.toNat < 256 ∧ p = s ++ ":h" ++ hex02 c.toNat ∧
      q = s ++ String.singleton c ++ "w"

theorem normalizeChars_hex02 (n : Nat) :
    normalizeChars (hex02 n).toList = (hex02 n).toList := by
  have hall : ∀ cs : List Char, (∀ c ∈ cs, isLowerHex c = true) → normalizeChars cs = cs := by
    intro cs hcs
    induction cs with
    | nil => rfl
    | cons c cs ih =>
      rw [normalizeChars_cons, normalizeChar_plain (isPlain_of_isLowerHex (hcs c (by simp))),
        ih fun d hd => hcs d (by simp [hd])]
      rfl
  exact hall _ fun c hc => isLowerHex_hex02 hc

theorem witnessClash_name {p q : String} (h : WitnessClash p q) :
    normalizePredId q = (Rel.witness (normalizePredId p)).name := by
  have hw : normalizeChars ['w'] = ['w'] := by decide
  have hcw : normalizeChars [':', 'w'] = ['_', 'w'] := by decide
  have huw : normalizeChars ['_', 'w'] = ['_', '_', 'w'] := by decide
  have hc : normalizeChars [':'] = ['_'] := by decide
  have hch : normalizeChars [':', 'h'] = ['_', 'h'] := by decide
  rw [Rel.name, ← String.toList_inj, String.toList_append, toList_normalizePredId,
    toList_normalizePredId]
  have htext : ∀ s t : String, normalizeChars (s ++ t).toList =
      normalizeChars s.toList ++ normalizeChars t.toList := by
    intro s t
    rw [String.toList_append, normalizeChars_append]
  rcases h with rfl | ⟨s, rfl, rfl⟩ | ⟨s, c, hother, -, rfl, rfl⟩
  · rw [htext]
    show _ :: _ :: (_ ++ normalizeChars [':', 'w']) = _
    rw [hcw]
    rfl
  · rw [htext, htext]
    show _ :: _ :: (_ ++ normalizeChars ['_', 'w']) = _ :: _ :: (_ ++ normalizeChars [':']) ++ _
    rw [huw, hc]
    simp
  · have hsingle : normalizeChars (String.singleton c).toList = (normalizeChar c).toList := by
      simp [normalizeChars]
    rw [htext, htext, htext, htext, hsingle, normalizeChars_hex02, normalizeChar_other hother]
    show _ :: _ :: (_ ++ normalizeChars ['w']) = _ :: _ :: (_ ++ normalizeChars [':', 'h'] ++ _) ++ _
    rw [hw, hch]
    simp

end FactGraph.Souffle
