import FactGraph.Lib.Check
import FactGraph.Protocol.Terms

/-!
# Canonical terms are accepted everywhere

`canonical_bytes_tup_v1` and `claim_args_from_rest_terms` check a term alike: terms that have
canonical bytes have cells, and their tags are not empty. The cell of a float is its hexadecimal
form, which has the bits of the float again (`float64Bits_hex`).
-/

namespace FactGraph.Protocol

open Check

theorem map_ok_iff {ε α β : Type} {x : Except ε α} {f : α → β} {b : β} :
    x.map f = .ok b ↔ ∃ a, x = .ok a ∧ f a = b := by
  cases x with
  | error e => simp [Except.map]
  | ok a => simp [Except.map]

/-- A value with canonical bytes has a cell. -/
theorem valAtom_of_encodeValueBytes {tag : String} {value : Datum} {raw : List UInt8}
    (h : encodeValueBytes tag value = .ok raw) : ∃ atom, valAtomForClaimArg tag value = .ok atom := by
  unfold encodeValueBytes at h
  unfold valAtomForClaimArg
  split at h
  case h_5 =>
    obtain ⟨b, hb, _⟩ := map_ok_iff.mp h
    exact ⟨.bool b, by simp [hb, Except.map]⟩
  case h_6 => exact ⟨.str (urlsafeBase64 raw), by simp [h, Except.map]⟩
  case h_8 =>
    obtain ⟨s, hs, _⟩ := map_ok_iff.mp h
    exact ⟨.str s, by simp [hs]⟩
  case h_9 => cases h
  all_goals
    obtain ⟨x, hx, _⟩ := map_ok_iff.mp h
    simp [hx, Except.map]

theorem exists_claimArgsFrom {terms : List Term}
    (h : ∀ t ∈ terms, ∃ atom, valAtomForClaimArg t.1 t.2 = .ok atom) (idx : Nat) :
    ∃ rows, claimArgsFrom idx terms = .ok rows := by
  induction terms generalizing idx with
  | nil => exact ⟨[], rfl⟩
  | cons t terms ih =>
    obtain ⟨tag, value⟩ := t
    obtain ⟨atom, hatom⟩ := h (tag, value) List.mem_cons_self
    obtain ⟨rows, hrows⟩ := ih (fun u hu => h u (List.mem_cons_of_mem _ hu)) (idx + 1)
    refine ⟨⟨idx, atom, tag⟩ :: rows, ?_⟩
    unfold claimArgsFrom
    rw [hatom, ok_bind, hrows]
    rfl

theorem termBytes_of_termsBytes {terms : List Term} {raw : List UInt8}
    (h : termsBytes terms = .ok raw) : ∀ t ∈ terms, ∃ raw, termBytes t = .ok raw := by
  induction terms generalizing raw with
  | nil => simp
  | cons t terms ih =>
    unfold termsBytes at h
    obtain ⟨head, hhead, h⟩ := bind_ok_iff.mp h
    obtain ⟨rest, hrest, _⟩ := bind_ok_iff.mp h
    intro u hu
    rcases List.mem_cons.mp hu with rfl | hu
    · exact ⟨head, hhead⟩
    · exact ih hrest u hu

/-- What the canonical bytes of terms say about each of them. -/
theorem canonical_terms {terms : List Term} {raw : List UInt8}
    (h : canonicalBytesTupV1 terms = .ok raw) :
    ∀ t ∈ terms, t.1 ≠ "" ∧ ∃ atom, valAtomForClaimArg t.1 t.2 = .ok atom := by
  unfold canonicalBytesTupV1 at h
  obtain ⟨_, _, h⟩ := bind_ok_iff.mp h
  obtain ⟨body, hbody, _⟩ := bind_ok_iff.mp h
  intro t ht
  obtain ⟨_, hterm⟩ := termBytes_of_termsBytes hbody t ht
  unfold termBytes at hterm
  cases hcode : tagCode? t.1 with
  | none => simp [hcode] at hterm
  | some code =>
    simp only [hcode] at hterm
    obtain ⟨payload, hpayload, _⟩ := bind_ok_iff.mp hterm
    refine ⟨?_, valAtom_of_encodeValueBytes hpayload⟩
    intro hempty
    rw [hempty] at hcode
    cases hcode

/-- Terms with canonical bytes have argument rows. -/
theorem claimArgs_of_canonical {terms : List Term} {raw : List UInt8}
    (h : canonicalBytesTupV1 terms = .ok raw) : ∃ rows, claimArgsFromRestTerms terms = .ok rows :=
  exists_claimArgsFrom (fun t ht => (canonical_terms h t ht).2) 0

/-! ## The values each tag takes -/

theorem requireInt64_ok {field : String} {v : Datum} {i : Int} (h : requireInt64 field v = .ok i) :
    v = .leaf (.int i) := by
  unfold requireInt64 at h
  split at h
  · split at h
    · rw [Except.ok.inj h]
    · cases h
  · cases h

theorem requireString_ok {v : Datum} {s : String} (h : requireString v = .ok s) :
    v = .leaf (.str s) := by
  unfold requireString at h
  split at h
  · rw [Except.ok.inj h]
  · cases h

theorem requireEntityRef_ok {v : Datum} {s : String} (h : requireEntityRef v = .ok s) :
    v = .leaf (.str s) ∧ startsWith entityRefPrefix s = true := by
  unfold requireEntityRef at h
  split at h
  · split at h
    · cases h
      exact ⟨rfl, by assumption⟩
    · cases h
  · cases h

theorem requireBool_ok {v : Datum} {b : Bool} (h : requireBool v = .ok b) :
    v = .leaf (.bool b) := by
  unfold requireBool at h
  split at h
  · rw [Except.ok.inj h]
  · cases h

theorem requireBytes_ok {v : Datum} {raw : List UInt8} (h : requireBytes v = .ok raw) :
    v = .leaf (.bytes raw) := by
  unfold requireBytes at h
  split at h
  · rw [Except.ok.inj h]
  · cases h

theorem requireUuid_ok {v : Datum} {s : String} (h : requireUuid v = .ok s) :
    v = .leaf (.str s) ∧ isCanonicalUuid s = true := by
  unfold requireUuid at h
  split at h
  · split at h
    · cases h
      exact ⟨rfl, by assumption⟩
    · cases h
  · cases h

/-! ## Hexadecimal floats -/

theorem hexValue?_hexDigit (n : Nat) : hexValue? (hexDigit n) = some (n % 16) := by
  unfold hexDigit
  have h : n % 16 < 16 := Nat.mod_lt _ (by omega)
  generalize n % 16 = m at h
  revert m
  decide

theorem foldlM_hex (l : List Nat) (acc : Nat) :
    (l.map hexDigit).foldlM (fun acc c => (hexValue? c).map fun d => acc * 16 + d) acc =
      some (l.foldl (fun acc n => acc * 16 + n % 16) acc) := by
  induction l generalizing acc with
  | nil => rfl
  | cons n l ih =>
    rw [List.map_cons, List.foldlM_cons, hexValue?_hexDigit]
    exact ih _

/-- The digits of a number, most significant first, spell it. -/
theorem foldl_digits (v k : Nat) :
    ((List.range k).map fun i => v / 16 ^ (k - 1 - i)).foldl (fun acc n => acc * 16 + n % 16) 0 =
      v % 16 ^ k := by
  induction k generalizing v with
  | zero => simp [Nat.mod_one]
  | succ k ih =>
    rw [List.range_succ, List.map_append, List.foldl_append]
    have h : (List.range k).map (fun i => v / 16 ^ (k + 1 - 1 - i)) =
        (List.range k).map fun i => v / 16 / 16 ^ (k - 1 - i) := by
      apply List.map_congr_left
      intro i hi
      have hi := List.mem_range.mp hi
      rw [Nat.div_div_eq_div_mul, ← Nat.pow_succ']
      congr 2
      omega
    rw [h, ih]
    simp only [List.map_cons, List.map_nil, List.foldl_cons, List.foldl_nil]
    rw [Nat.pow_succ', Nat.mod_mul, Nat.add_sub_cancel, Nat.sub_self, Nat.pow_zero, Nat.div_one, Nat.mul_comm, Nat.add_comm]

theorem parseFloat64Hex?_float64Hex (bits : UInt64) :
    parseFloat64Hex? (float64Hex bits) = some bits := by
  have hfold := foldlM_hex ((List.range 16).map fun i => bits.toNat / 16 ^ (16 - 1 - i)) 0
  rw [List.map_map, foldl_digits] at hfold
  unfold parseFloat64Hex? float64Hex
  rw [String.toList_ofList]
  simp only [List.length_map, List.length_range, if_true]
  refine (congrArg (Option.map UInt64.ofNat) hfold).trans ?_
  have hlt : bits.toNat < 16 ^ 16 := bits.toNat_lt
  rw [Option.map_some, Nat.mod_eq_of_lt hlt, UInt64.ofNat_toNat]

theorem hexDigit_of_hexValue? {c : Char} {d : Nat} (h : hexValue? c = some d) :
    d < 16 ∧ hexDigit d = c := by
  have hsmall : c.toNat < 128 := by
    unfold hexValue? at h
    split at h
    next hc =>
      have : c.toNat ≤ '9'.toNat := hc.2
      exact Nat.lt_of_le_of_lt this (by decide)
    next =>
      split at h
      next hc =>
        have : c.toNat ≤ 'f'.toNat := hc.2
        exact Nat.lt_of_le_of_lt this (by decide)
      next => cases h
  have hall : ∀ n : Fin 128, ∀ e ∈ hexValue? (Char.ofNat n), e < 16 ∧ hexDigit e = Char.ofNat n := by
    decide
  have := hall ⟨c.toNat, hsmall⟩ d (by simpa using h)
  simpa using this

/-- Hexadecimal digits of one number are the same, if they are as many. -/
theorem hexDigits_injective {ds es : List Char} (hlen : ds.length = es.length) {acc acc' n : Nat}
    (hd : ds.foldlM (fun acc c => (hexValue? c).map fun d => acc * 16 + d) acc = some n)
    (he : es.foldlM (fun acc c => (hexValue? c).map fun d => acc * 16 + d) acc' = some n) :
    acc = acc' ∧ ds = es := by
  induction ds using List.reverseRecOn generalizing es n with
  | nil =>
    obtain rfl := List.length_eq_zero_iff.mp hlen.symm
    cases hd
    cases he
    exact ⟨rfl, rfl⟩
  | append_singleton ds c ih =>
    rcases List.eq_nil_or_concat es with rfl | ⟨es, c', rfl⟩
    · simp at hlen
    · rw [List.concat_eq_append] at he hlen ⊢
      rw [List.foldlM_append] at hd he
      obtain ⟨m, hm, hd⟩ := Option.bind_eq_some_iff.mp hd
      obtain ⟨m', hm', he⟩ := Option.bind_eq_some_iff.mp he
      rw [List.foldlM_cons] at hd he
      obtain ⟨d, hd, hn⟩ := Option.map_eq_some_iff.mp (by simpa using hd)
      obtain ⟨e, he, hn'⟩ := Option.map_eq_some_iff.mp (by simpa using he)
      obtain ⟨hd16, rfl⟩ := hexDigit_of_hexValue? hd
      obtain ⟨he16, rfl⟩ := hexDigit_of_hexValue? he
      have hdigit : d = e := by omega
      have hrest : m = m' := by omega
      subst hdigit hrest
      obtain ⟨hacc, rfl⟩ := ih (by simpa using hlen) hm hm'
      exact ⟨hacc, rfl⟩

theorem hexDigits_lt {ds : List Char} {acc n : Nat}
    (h : ds.foldlM (fun acc c => (hexValue? c).map fun d => acc * 16 + d) acc = some n) :
    n < (acc + 1) * 16 ^ ds.length := by
  induction ds generalizing acc with
  | nil =>
    cases h
    simp
  | cons c ds ih =>
    rw [List.foldlM_cons] at h
    obtain ⟨m, hm, h⟩ := Option.bind_eq_some_iff.mp h
    obtain ⟨d, hd, rfl⟩ := Option.map_eq_some_iff.mp hm
    obtain ⟨hd16, _⟩ := hexDigit_of_hexValue? hd
    have hle : acc * 16 + d + 1 ≤ (acc + 1) * 16 := by omega
    calc n < (acc * 16 + d + 1) * 16 ^ ds.length := ih h
      _ ≤ (acc + 1) * 16 * 16 ^ ds.length := Nat.mul_le_mul_right _ hle
      _ = (acc + 1) * 16 ^ (c :: ds).length := by rw [List.length_cons, Nat.pow_succ', Nat.mul_assoc]

/-- **The text is the hexadecimal form of the bits it spells.** -/
theorem float64Hex_of_parse {s : String} {bits : UInt64} (h : parseFloat64Hex? s = some bits) :
    float64Hex bits = s := by
  -- two texts that spell the same bits
  have hspell : ∀ {s : String}, parseFloat64Hex? s = some bits → ∃ digits,
      s.toList = '0' :: 'x' :: digits ∧ digits.length = 16 ∧
        digits.foldlM (fun acc c => (hexValue? c).map fun d => acc * 16 + d) 0 =
          some bits.toNat := by
    intro s h
    unfold parseFloat64Hex? at h
    split at h
    next digits hs =>
      split at h
      next hlen =>
        obtain ⟨n, hn, rfl⟩ := Option.map_eq_some_iff.mp h
        have hlt := hexDigits_lt hn
        rw [hlen] at hlt
        refine ⟨digits, hs, hlen, ?_⟩
        rw [hn, UInt64.toNat_ofNat_of_lt' hlt]
      next => cases h
    next => cases h
  obtain ⟨ds, hs, hlen, hds⟩ := hspell h
  obtain ⟨es, hes, hlen', hfold⟩ := hspell (parseFloat64Hex?_float64Hex bits)
  obtain ⟨_, rfl⟩ := hexDigits_injective (hlen.trans hlen'.symm) hds hfold
  rw [← String.toList_inj, hes, hs]

theorem F64.isFinite_positiveZero {x : F64} (h : x.isFinite = true) :
    x.positiveZero.isFinite = true := by
  unfold F64.positiveZero
  split
  · decide
  · exact h

theorem F64.positiveZero_positiveZero (x : F64) : x.positiveZero.positiveZero = x.positiveZero := by
  unfold F64.positiveZero
  by_cases h : x.isZero = true
  · rw [if_pos h]
    rfl
  · simp only [if_neg h]

/-- The bits of a float64 term, read off its cell. -/
theorem float64Bits_hex {v : Datum} {bits : UInt64} (h : float64Bits v = .ok bits) :
    float64Bits (.leaf (.str (float64Hex bits))) = .ok bits := by
  obtain ⟨x, hx, rfl⟩ : ∃ x : F64, x.isFinite = true ∧ x.positiveZero.bits = bits := by
    unfold float64Bits at h
    split at h
    · split at h
      · exact ⟨_, by assumption, Except.ok.inj h⟩
      · cases h
    · split at h
      · cases h
      · split at h
        · exact ⟨_, by assumption, Except.ok.inj h⟩
        · cases h
    · cases h
  unfold float64Bits
  simp only [parseFloat64Hex?_float64Hex]
  have hfin := F64.isFinite_positiveZero hx
  rw [if_pos (by exact hfin)]
  exact congrArg (fun y : F64 => Except.ok y.bits) (F64.positiveZero_positiveZero x)

end FactGraph.Protocol
