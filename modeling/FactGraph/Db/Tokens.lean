import FactGraph.Db.Encoding
import FactGraph.Protocol.Canonical

/-!
# Tokens that are read back

The tokens a database makes are tokens it accepts: a state is read back from its base 64 text, and a
digest of 32 bytes has the 64 characters that are asked for.
-/

namespace FactGraph.Db

open Protocol Store Check

/-! ## Base 64 -/

theorem urlsafeValue?_base64Char {n : Nat} (h : n < 64) :
    urlsafeValue? (base64Char '-' '_' n) = some n := by
  have hall : ∀ n : Fin 64, urlsafeValue? (base64Char '-' '_' n) = some n.val := by decide
  exact hall ⟨n, h⟩

theorem base64Char_ne_pad {n : Nat} : base64Char '-' '_' n ≠ '=' := by
  by_cases h : n < 62
  · have hall : ∀ n : Fin 62, base64Char '-' '_' n ≠ '=' := by decide
    exact hall ⟨n, h⟩
  · have h₁ : ¬n < 26 := by omega
    have h₂ : ¬n < 52 := by omega
    unfold base64Char
    rw [if_neg h₁, if_neg h₂, if_neg h]
    split <;> decide

theorem b64decodeStrict?_group {a b c d : Char} (hd : d ≠ '=') (rest : List Char) :
    b64decodeStrict? (a :: b :: c :: d :: rest) = (do
      let a ← urlsafeValue? a
      let b ← urlsafeValue? b
      let c ← urlsafeValue? c
      let d ← urlsafeValue? d
      let raw ← b64decodeStrict? rest
      some (UInt8.ofNat (a * 4 + b / 16) :: UInt8.ofNat (b % 16 * 16 + c / 4) ::
        UInt8.ofNat (c % 4 * 64 + d) :: raw)) := by
  rw [b64decodeStrict?]
  · intro _ h; exact absurd h hd
  · intro h; exact absurd h hd

theorem b64decodeStrict?_three {a b c : Char} (hc : c ≠ '=') :
    b64decodeStrict? [a, b, c, '='] = (do
      let a ← urlsafeValue? a
      let b ← urlsafeValue? b
      let c ← urlsafeValue? c
      some [UInt8.ofNat (a * 4 + b / 16), UInt8.ofNat (b % 16 * 16 + c / 4)]) := by
  rw [b64decodeStrict?]
  intro h; exact absurd h hc

/-- The padding after so many digits. -/
def pad (n : Nat) : List Char := List.replicate ((4 - n % 4) % 4) '='

/-- Digits and their padding spell the bytes they were made of. -/
theorem b64decodeStrict?_base64Digits (raw : List UInt8) :
    b64decodeStrict? ((base64Digits raw).map (base64Char '-' '_') ++ pad (base64Digits raw).length) =
      some raw := by
  fun_induction base64Digits raw with
  | case1 => rfl
  | case2 a =>
    have ha := a.toNat_lt
    have hbyte : a.toNat / 4 * 4 + a.toNat % 4 * 16 / 16 = a.toNat := by omega
    show b64decodeStrict? [base64Char '-' '_' _, base64Char '-' '_' _, '=', '='] = _
    rw [b64decodeStrict?, urlsafeValue?_base64Char (by omega), urlsafeValue?_base64Char (by omega)]
    show some [UInt8.ofNat _] = _
    rw [hbyte, UInt8.ofNat_toNat]
  | case3 a b =>
    have ha := a.toNat_lt
    have hb := b.toNat_lt
    have hfirst : a.toNat / 4 * 4 + (a.toNat % 4 * 16 + b.toNat / 16) / 16 = a.toNat := by omega
    have hsecond : (a.toNat % 4 * 16 + b.toNat / 16) % 16 * 16 + b.toNat % 16 * 4 / 4 = b.toNat := by
      omega
    show b64decodeStrict? [base64Char '-' '_' _, base64Char '-' '_' _, base64Char '-' '_' _, '='] = _
    rw [b64decodeStrict?_three base64Char_ne_pad, urlsafeValue?_base64Char (by omega),
      urlsafeValue?_base64Char (by omega), urlsafeValue?_base64Char (by omega)]
    show some [UInt8.ofNat _, UInt8.ofNat _] = _
    rw [hfirst, hsecond, UInt8.ofNat_toNat, UInt8.ofNat_toNat]
  | case4 a b c rest ih =>
    have ha := a.toNat_lt
    have hb := b.toNat_lt
    have hc := c.toNat_lt
    have hpad : pad ((base64Digits rest).length + 1 + 1 + 1 + 1) = pad (base64Digits rest).length := by
      unfold pad
      congr 1
      omega
    have hfirst : a.toNat / 4 * 4 + (a.toNat % 4 * 16 + b.toNat / 16) / 16 = a.toNat := by omega
    have hsecond : (a.toNat % 4 * 16 + b.toNat / 16) % 16 * 16 +
        (b.toNat % 16 * 4 + c.toNat / 64) / 4 = b.toNat := by omega
    have hthird : (b.toNat % 16 * 4 + c.toNat / 64) % 4 * 64 + c.toNat % 64 = c.toNat := by omega
    simp only [List.map_cons, List.cons_append, List.length_cons, hpad]
    rw [b64decodeStrict?_group base64Char_ne_pad, ih, urlsafeValue?_base64Char (by omega),
      urlsafeValue?_base64Char (by omega), urlsafeValue?_base64Char (by omega),
      urlsafeValue?_base64Char (by omega)]
    show some (UInt8.ofNat _ :: UInt8.ofNat _ :: UInt8.ofNat _ :: rest) = _
    rw [hfirst, hsecond, hthird, UInt8.ofNat_toNat, UInt8.ofNat_toNat, UInt8.ofNat_toNat]

/-! ## Tokens -/

theorem startsWith_append (start s : String) : startsWith start (start ++ s) = true := by
  unfold startsWith
  rw [String.toList_append, List.isPrefixOf_iff_prefix]
  exact List.prefix_append _ _

/-- A state is read back from its token. -/
theorem decodeState_encode (state : LtState) : decodeState state.encode = .ok state := by
  have hstart : startsWith (LtState.scheme ++ ":") state.encode = true :=
    startsWith_append _ (urlsafeBase64 state.bytes)
  have hpayload : state.encode.toList.drop (LtState.scheme ++ ":").length =
      (base64Digits state.bytes).map (base64Char '-' '_') := by
    unfold LtState.encode urlsafeBase64
    rw [String.toList_append, String.toList_ofList, ← String.length_toList, List.drop_left]
  have hnonempty : (base64Digits state.bytes).isEmpty = false := by
    cases hbytes : state.bytes with
    | nil =>
      have hsize := state.size
      rw [hbytes] at hsize
      cases hsize
    | cons b rest =>
      match rest with
      | [] => rfl
      | [_] => rfl
      | _ :: _ :: _ => rfl
  unfold decodeState
  simp only [hpayload, hstart, List.isEmpty_map, hnonempty, List.length_map]
  have hdecode := b64decodeStrict?_base64Digits state.bytes
  unfold pad at hdecode
  rw [hdecode]
  have hsame : LtState.encode ⟨state.bytes, state.size⟩ = state.encode := rfl
  simp [require, state.size, hsame]

/-- A digest of 32 bytes makes a token. -/
theorem requireToken_digest {start field : String} (host : Host) (raw : List UInt8)
    (hsha : (host.sha256 raw).length = 32) :
    requireToken (start ++ hexdigest (host.sha256 raw)) start field =
      .ok (start ++ hexdigest (host.sha256 raw)) := by
  have hsuffix : (start ++ hexdigest (host.sha256 raw)).toList.drop start.length =
      (host.sha256 raw).flatMap fun b => [hexDigit (b.toNat / 16), hexDigit b.toNat] := by
    unfold hexdigest
    rw [String.toList_append, String.toList_ofList, ← String.length_toList, List.drop_left]
  have hlength : ((host.sha256 raw).flatMap fun b =>
      [hexDigit (b.toNat / 16), hexDigit b.toNat]).length = 64 := by
    simp [List.length_flatMap, hsha]
  have hhex : isLowerHex ((host.sha256 raw).flatMap fun b =>
      [hexDigit (b.toNat / 16), hexDigit b.toNat]) = true := by
    unfold isLowerHex
    rw [List.all_eq_true]
    intro c hc
    obtain ⟨b, _, hc⟩ := List.mem_flatMap.mp hc
    rcases List.mem_cons.mp hc with rfl | hc
    · rw [hexValue?_hexDigit]
      rfl
    · rw [List.mem_singleton.mp hc, hexValue?_hexDigit]
      rfl
  unfold requireToken
  simp only [startsWith_append, hsuffix, hlength, hhex]
  rfl
/-- Whether a token is accepted does not depend on the field it is for. -/
theorem requireToken_field {value start field token : String}
    (h : requireToken value start field = .ok token) (other : String) :
    requireToken value start other = .ok token := by
  unfold requireToken at h ⊢
  obtain ⟨hstart, h⟩ := bind_unit_ok_iff.mp h
  obtain ⟨hsuffix, h⟩ := bind_unit_ok_iff.mp h
  rw [require_of_true (require_ok_iff.mp hstart), ok_bind]
  simp only
  rw [require_of_true (require_ok_iff.mp hsuffix), ok_bind]
  exact h

/-! ## Lengths -/

theorem length_utf8_le (s : String) : (utf8 s).length ≤ 4 * s.toList.length := by
  have hsize : ∀ cs : List Char, (String.ofList cs).utf8ByteSize ≤ 4 * cs.length := by
    intro cs
    induction cs with
    | nil => simp
    | cons c cs ih =>
      have hsplit : String.ofList (c :: cs) = String.singleton c ++ String.ofList cs := by
        apply String.toList_inj.mp
        simp
      rw [hsplit, String.utf8ByteSize_append, String.utf8ByteSize_singleton, List.length_cons]
      have := c.utf8Size_le_four
      omega
  have hbytes : (utf8 s).length = s.utf8ByteSize := rfl
  have hlist := hsize s.toList
  rw [String.ofList_toList] at hlist
  rw [hbytes]
  exact hlist

/-- A short text has a field. -/
theorem exists_strField {value : String} (h : value.toList.length ≤ 100) :
    ∃ raw, strField value = .ok raw := by
  have hlength := length_utf8_le value
  have hlt : (utf8 value).length < 2 ^ 32 := by omega
  unfold strField u32be
  rw [if_pos hlt]
  exact ⟨_, rfl⟩

theorem length_of_requireToken {value start field token : String} (hstart : start.length ≤ 20)
    (h : requireToken value start field = .ok token) : value.toList.length ≤ 100 := by
  unfold requireToken at h
  obtain ⟨_, h⟩ := bind_unit_ok_iff.mp h
  obtain ⟨hsuffix, _⟩ := bind_unit_ok_iff.mp h
  have hlength := (Bool.and_eq_true_iff.mp (require_ok_iff.mp hsuffix)).1
  rw [decide_eq_true_iff, List.length_drop] at hlength
  omega

theorem length_of_requireAsrtId {value field id : String} (h : requireAsrtId value field = .ok id) :
    id = value ∧ value.toList.length ≤ 100 := by
  unfold requireAsrtId at h
  obtain ⟨hsuffix, h⟩ := bind_unit_ok_iff.mp h
  cases h
  refine ⟨rfl, ?_⟩
  have hlength := (Bool.and_eq_true_iff.mp (require_ok_iff.mp hsuffix)).1
  split at hlength
  · simp only [List.length_drop, Bool.or_eq_true, decide_eq_true_eq] at hlength
    omega
  · simp only [Bool.or_eq_true, decide_eq_true_eq] at hlength
    omega
/-! ## Decimals -/

theorem digit?_digitChar {d : Nat} (h : d < 10) : Rules.digit? d.digitChar = some d := by
  have hall : ∀ d : Fin 10, Rules.digit? d.val.digitChar = some d.val := by decide
  exact hall ⟨d, h⟩

theorem foldlM_toDigits (n : Nat) :
    (Nat.toDigits 10 n).foldlM (fun acc c => (Rules.digit? c).map fun d => acc * 10 + d) 0 =
      some n := by
  induction n using Nat.strongRecOn with
  | _ n ih =>
    by_cases h : n < 10
    · rw [Nat.toDigits_of_lt_base h, List.foldlM_cons, digit?_digitChar h]
      simp
    · have hlt : n / 10 < n := Nat.div_lt_self (by omega) (by omega)
      rw [Nat.toDigits_of_base_le (by omega) (by omega), List.foldlM_append, ih _ hlt]
      have hdigit := digit?_digitChar (Nat.mod_lt n (by omega : 10 > 0))
      simp only [Option.bind_eq_bind, Option.bind_some, List.foldlM_cons, hdigit, Option.map_some,
        List.foldlM_nil, Option.pure_def, Option.some.injEq]
      omega

/-- A number is read back from its decimal text. -/
theorem decimal?_toString (n : Nat) : Ledger.decimal? (toString n) = some n := by
  have hlist : (toString n).toList = Nat.toDigits 10 n := by
    rw [Nat.toString_eq_ofList_toDigits, String.toList_ofList]
  unfold Ledger.decimal? Rules.digits?
  rw [hlist]
  cases hdigits : Nat.toDigits 10 n with
  | nil => exact absurd hdigits Nat.toDigits_ne_nil
  | cons c cs =>
    have hfold := foldlM_toDigits n
    rw [hdigits] at hfold
    exact hfold
end FactGraph.Db
