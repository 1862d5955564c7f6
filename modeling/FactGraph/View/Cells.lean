import FactGraph.Protocol.Framing
import FactGraph.View.Projector

/-!
# What a cell says of its value

A view holds the cell of a term, not its value, and the projector hands the cell of an identity term
to the encoder of references. The encoder then does with the cell what it would do with the value
(`Legible.encode_iff`), with two exceptions (`Legible`): the cell of a `bytes` term is text in base
64, which no `bytes` field takes and some other fields do; and the cell of a float is its hexadecimal
form, which a `string` field takes whatever the value was.
-/

namespace FactGraph.View

open Protocol Store Check

/-- The cell stands for the value of the term, for a field of the type domain. -/
def Legible (domain : String) (t : Term) (atom : Rules.Value) : Prop :=
  match t.1 with
  | "bytes" => domain ≠ "bytes" ∧ ∀ raw, encodeValueBytes domain (datumOf atom) ≠ .ok raw
  | "float64" => domain = "string" → t.2 = datumOf atom
  | _ => True

theorem legible_bytes {domain : String} {v : Datum} {atom : Rules.Value} :
    Legible domain ("bytes", v) atom ↔
      domain ≠ "bytes" ∧ ∀ raw, encodeValueBytes domain (datumOf atom) ≠ .ok raw := Iff.rfl

theorem legible_float64 {domain : String} {v : Datum} {atom : Rules.Value} :
    Legible domain ("float64", v) atom ↔ (domain = "string" → v = datumOf atom) := Iff.rfl

/-! ## Encodings of the values of one Python type -/

/-- Only a `bytes` field takes a byte string. -/
theorem encodeValueBytes_bytes {domain : String} {b raw : List UInt8}
    (h : encodeValueBytes domain (.leaf (.bytes b)) = .ok raw) : domain = "bytes" := by
  unfold encodeValueBytes at h
  split at h
  case h_6 => rfl
  case h_9 => cases h
  all_goals
    obtain ⟨x, hx, _⟩ := map_ok_iff.mp h
    cases hx

/-- No `bytes` field takes text. -/
theorem encodeValueBytes_bytes_str (s : String) (raw : List UInt8) :
    encodeValueBytes "bytes" (.leaf (.str s)) ≠ .ok raw := by
  intro h
  cases h

/-- Text in hexadecimal form: two leading characters and sixteen digits. -/
theorem parseFloat64Hex?_shape {s : String} {bits : UInt64} (h : parseFloat64Hex? s = some bits) :
    ∃ digits, s.toList = '0' :: 'x' :: digits ∧ digits.length = 16 := by
  unfold parseFloat64Hex? at h
  split at h
  · split at h
    · exact ⟨_, by assumption, by assumption⟩
    · cases h
  · cases h

/-- Apart from a float and a string field, no field takes text in hexadecimal form. -/
theorem encodeValueBytes_hex {domain s : String} {bits : UInt64} {raw : List UInt8}
    (hs : parseFloat64Hex? s = some bits)
    (h : encodeValueBytes domain (.leaf (.str s)) = .ok raw) :
    domain = "float64" ∨ domain = "string" := by
  obtain ⟨digits, hlist, hlen⟩ := parseFloat64Hex?_shape hs
  unfold encodeValueBytes at h
  split at h
  case h_1 =>
    -- a reference starts with another character
    obtain ⟨x, hx, _⟩ := map_ok_iff.mp h
    obtain ⟨heq, hstart⟩ := requireEntityRef_ok hx
    cases heq
    unfold startsWith at hstart
    rw [hlist] at hstart
    cases hstart
  case h_2 => exact .inr rfl
  case h_4 => exact .inl rfl
  case h_6 => cases h
  case h_8 =>
    -- a UUID is longer
    obtain ⟨x, hx, _⟩ := map_ok_iff.mp h
    obtain ⟨heq, huuid⟩ := requireUuid_ok hx
    cases heq
    unfold isCanonicalUuid at huuid
    rw [hlist] at huuid
    simp [hlen] at huuid
  case h_9 => cases h
  all_goals
    obtain ⟨x, hx, _⟩ := map_ok_iff.mp h
    cases hx

/-- Only a float field takes a float. -/
theorem encodeValueBytes_float {domain : String} {x : F64} {raw : List UInt8}
    (h : encodeValueBytes domain (.leaf (.float x)) = .ok raw) : domain = "float64" := by
  unfold encodeValueBytes at h
  split at h
  case h_4 => rfl
  case h_6 => cases h
  case h_9 => cases h
  all_goals
    obtain ⟨y, hy, _⟩ := map_ok_iff.mp h
    cases hy

/-! ## Cells -/

/-- The value of a float term is a float or a hexadecimal form. -/
theorem float64_value {v : Datum} {bits : UInt64} (h : float64Bits v = .ok bits) :
    (∃ x, v = .leaf (.float x)) ∨ ∃ s b, v = .leaf (.str s) ∧ parseFloat64Hex? s = some b := by
  unfold float64Bits at h
  split at h
  · exact .inl ⟨_, rfl⟩
  · split at h
    · cases h
    · exact .inr ⟨_, _, rfl, by assumption⟩
  · cases h

/-- A float term is encoded alike by its value and by its cell, for every field but a string one. -/
theorem encode_float64 {domain : String} {v : Datum} {bits : UInt64}
    (h : float64Bits v = .ok bits) (hdomain : domain ≠ "string") (raw : List UInt8) :
    encodeValueBytes domain (.leaf (.str (float64Hex bits))) = .ok raw ↔
      encodeValueBytes domain v = .ok raw := by
  by_cases hfloat : domain = "float64"
  · subst hfloat
    show (float64Bits _).map _ = .ok raw ↔ (float64Bits _).map _ = .ok raw
    rw [float64Bits_hex h, h]
  · constructor
    · intro hcell
      exact ((encodeValueBytes_hex (parseFloat64Hex?_float64Hex bits) hcell).elim hfloat hdomain).elim
    · intro hvalue
      rcases float64_value h with ⟨x, rfl⟩ | ⟨s, b, rfl, hs⟩
      · exact absurd (encodeValueBytes_float hvalue) hfloat
      · exact ((encodeValueBytes_hex hs hvalue).elim hfloat hdomain).elim

/-- The cell of a term that is neither a float nor a byte string is its value. -/
theorem datumOf_cell {t : Term} {atom : Rules.Value} (h : valAtomForClaimArg t.1 t.2 = .ok atom)
    (hbytes : t.1 ≠ "bytes") (hfloat : t.1 ≠ "float64") : datumOf atom = t.2 := by
  obtain ⟨tag, v⟩ := t
  simp only at h hbytes hfloat ⊢
  unfold valAtomForClaimArg at h
  split at h
  case h_1 =>
    obtain ⟨s, hs, rfl⟩ := map_ok_iff.mp h
    exact (requireEntityRef_ok hs).1.symm
  case h_2 =>
    obtain ⟨s, hs, rfl⟩ := map_ok_iff.mp h
    exact (requireString_ok hs).symm
  case h_4 => exact (hfloat rfl).elim
  case h_5 =>
    obtain ⟨b, hb, rfl⟩ := map_ok_iff.mp h
    exact (requireBool_ok hb).symm
  case h_6 => exact (hbytes rfl).elim
  case h_8 =>
    cases hs : requireUuid v with
    | error e => simp [hs] at h
    | ok s =>
      rw [hs] at h
      cases h
      exact (requireUuid_ok hs).1.symm
  case h_9 => cases h
  all_goals
    obtain ⟨i, hi, rfl⟩ := map_ok_iff.mp h
    exact (requireInt64_ok hi).symm

/-- **A legible cell is encoded as its value is.** -/
theorem Legible.encode_iff {domain : String} {t : Term} {atom : Rules.Value}
    (hcell : valAtomForClaimArg t.1 t.2 = .ok atom) (h : Legible domain t atom)
    (raw : List UInt8) :
    encodeValueBytes domain (datumOf atom) = .ok raw ↔ encodeValueBytes domain t.2 = .ok raw := by
  obtain ⟨tag, v⟩ := t
  by_cases hbytes : tag = "bytes"
  · subst hbytes
    obtain ⟨hdomain, hreject⟩ := legible_bytes.mp h
    obtain ⟨b, hb, rfl⟩ := map_ok_iff.mp hcell
    have hv : v = .leaf (.bytes b) := requireBytes_ok hb
    subst hv
    exact ⟨fun hc => absurd hc (hreject raw), fun hv => absurd (encodeValueBytes_bytes hv) hdomain⟩
  · by_cases hfloat : tag = "float64"
    · subst hfloat
      obtain ⟨bits, hbits, rfl⟩ := map_ok_iff.mp hcell
      by_cases hstring : domain = "string"
      · have hv : v = datumOf (.str (float64Hex bits)) := legible_float64.mp h hstring
        rw [hv]
      · exact encode_float64 hbits hstring raw
    · rw [datumOf_cell hcell hbytes hfloat]

/-- A cell that encodes as its value does is legible. -/
theorem legible_of_encode {domain : String} {t : Term} {atom : Rules.Value} {raw : List UInt8}
    (hcell : valAtomForClaimArg t.1 t.2 = .ok atom)
    (hc : encodeValueBytes domain (datumOf atom) = .ok raw)
    (hv : encodeValueBytes domain t.2 = .ok raw) : Legible domain t atom := by
  obtain ⟨tag, v⟩ := t
  by_cases hbytes : tag = "bytes"
  · subst hbytes
    obtain ⟨b, hb, rfl⟩ := map_ok_iff.mp hcell
    have hbytes : v = .leaf (.bytes b) := requireBytes_ok hb
    subst hbytes
    have hdomain : domain = "bytes" := encodeValueBytes_bytes hv
    subst hdomain
    exact absurd hc (encodeValueBytes_bytes_str _ _)
  · by_cases hfloat : tag = "float64"
    · subst hfloat
      obtain ⟨bits, hbits, rfl⟩ := map_ok_iff.mp hcell
      apply legible_float64.mpr
      intro hdomain
      subst hdomain
      rcases float64_value hbits with ⟨x, rfl⟩ | ⟨s, b, rfl, _⟩
      · exact absurd (encodeValueBytes_float hv) (by decide)
      · have hs : utf8 s = utf8 (float64Hex bits) :=
          (Except.ok.inj hv).trans (Except.ok.inj hc).symm
        rw [utf8_injective hs]
        rfl
    · unfold Legible
      split
      · contradiction
      · contradiction
      · trivial

/-- **A term tagged with the domain of its field is legible, unless the domain is `bytes`.** -/
theorem legible_iff_of_tag {domain : String} {t : Term} {atom : Rules.Value}
    (htag : t.1 = domain) : Legible domain t atom ↔ domain ≠ "bytes" := by
  obtain ⟨tag, v⟩ := t
  obtain rfl : tag = domain := htag
  by_cases hbytes : tag = "bytes"
  · subst hbytes
    simp [legible_bytes]
  · by_cases hfloat : tag = "float64"
    · subst hfloat
      simp [legible_float64]
    · unfold Legible
      split
      · contradiction
      · contradiction
      · simpa using hbytes

end FactGraph.View
