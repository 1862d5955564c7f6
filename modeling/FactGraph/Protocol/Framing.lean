import FactGraph.Protocol.Canonical

/-!
# Frames

The canonical bytes of terms are framed: every term says how long it is. So what the bytes were made
of can be read off them, term by term.
-/

namespace FactGraph.Protocol

open Check

/-! ## Numbers and texts -/

theorem utf8_injective {s t : String} (h : utf8 s = utf8 t) : s = t := by
  unfold utf8 at h
  apply String.toByteArray_inj.mp
  apply ByteArray.ext
  exact Array.toList_inj.mp h

theorem u32be_length {n : Nat} {raw : List UInt8} (h : u32be n = .ok raw) : raw.length = 4 := by
  unfold u32be at h
  split at h
  · cases h
    rfl
  · cases h

theorem bigEndian_inj {n v w : Nat} (h : bigEndian n v = bigEndian n w) :
    v % 256 ^ n = w % 256 ^ n := by
  induction n generalizing v w with
  | zero => simp [Nat.mod_one]
  | succ n ih =>
    unfold bigEndian at h
    obtain ⟨hinit, hlast⟩ := List.append_inj' h rfl
    have hlow : v % 256 = w % 256 := by
      have hbyte := congrArg UInt8.toNat (List.singleton_inj.mp hlast)
      simpa using hbyte
    rw [Nat.pow_succ', Nat.mod_mul, Nat.mod_mul, hlow, ih hinit]

theorem u32be_inj {n m : Nat} {raw : List UInt8} (hn : u32be n = .ok raw)
    (hm : u32be m = .ok raw) : n = m := by
  unfold u32be at hn hm
  split at hn
  · split at hm
    · have h := bigEndian_inj ((Except.ok.inj hn).trans (Except.ok.inj hm).symm)
      rwa [Nat.mod_eq_of_lt (by omega), Nat.mod_eq_of_lt (by omega)] at h
    · cases hm
  · cases hn

theorem hexDigit_inj {n m : Nat} (h : hexDigit n = hexDigit m) : n % 16 = m % 16 := by
  have hvalue := congrArg hexValue? h
  rw [hexValue?_hexDigit, hexValue?_hexDigit] at hvalue
  exact Option.some.inj hvalue

/-- A digest is spelled by its bytes. -/
theorem hexdigest_inj {xs ys : List UInt8} (h : hexdigest xs = hexdigest ys) : xs = ys := by
  have hchars := String.ofList_injective h
  clear h
  induction xs generalizing ys with
  | nil =>
    cases ys with
    | nil => rfl
    | cons y ys => cases hchars
  | cons x xs ih =>
    cases ys with
    | nil => cases hchars
    | cons y ys =>
      simp only [List.flatMap_cons, List.cons_append, List.nil_append, List.cons.injEq] at hchars
      obtain ⟨hhigh, hlow, hrest⟩ := hchars
      have hbyte : x.toNat = y.toNat := by
        have hx := x.toNat_lt
        have hy := y.toNat_lt
        have hhigh := hexDigit_inj hhigh
        have hlow := hexDigit_inj hlow
        omega
      rw [UInt8.toNat_inj.mp hbyte, ih hrest]

/-! ## Terms -/

theorem termBytes_ok_iff {t : Term} {raw : List UInt8} : termBytes t = .ok raw ↔
    ∃ code payload length, tagCode? t.1 = some code ∧ encodeValueBytes t.1 t.2 = .ok payload ∧
      u32be payload.length = .ok length ∧ raw = code :: length ++ payload := by
  unfold termBytes
  cases tagCode? t.1 with
  | none => simp
  | some code =>
    simp only [bind_ok_iff]
    constructor
    · rintro ⟨payload, hpayload, length, hlength, h⟩
      cases h
      exact ⟨code, payload, length, rfl, hpayload, hlength, rfl⟩
    · rintro ⟨_, payload, length, hcode, hpayload, hlength, rfl⟩
      cases hcode
      exact ⟨payload, hpayload, length, hlength, rfl⟩

/-- The frame of a term ends where its value does. -/
theorem termBytes_cancel {t u : Term} {a b x y : List UInt8} (ha : termBytes t = .ok a)
    (hb : termBytes u = .ok b) (h : a ++ x = b ++ y) : a = b ∧ x = y := by
  obtain ⟨code, payload, size, _, _, hsize, rfl⟩ := termBytes_ok_iff.mp ha
  obtain ⟨code', payload', size', _, _, hsize', rfl⟩ := termBytes_ok_iff.mp hb
  simp only [List.append_assoc, List.cons_append, List.cons.injEq] at h
  obtain ⟨rfl, hframe⟩ := h
  obtain ⟨rfl, hvalue⟩ := List.append_inj hframe
    ((u32be_length hsize).trans (u32be_length hsize').symm)
  obtain ⟨rfl, hxy⟩ := List.append_inj hvalue (u32be_inj hsize hsize')
  exact ⟨rfl, hxy⟩

/-- The values of two terms of one tag are encoded alike if the terms are. -/
theorem encode_of_termBytes {tag : String} {v w : Datum} {raw : List UInt8}
    (hv : termBytes (tag, v) = .ok raw) (hw : termBytes (tag, w) = .ok raw) :
    ∃ payload, encodeValueBytes tag v = .ok payload ∧ encodeValueBytes tag w = .ok payload := by
  obtain ⟨code, payload, size, _, hpayload, hsize, rfl⟩ := termBytes_ok_iff.mp hv
  obtain ⟨code', payload', size', _, hpayload', hsize', h⟩ := termBytes_ok_iff.mp hw
  obtain ⟨_, rfl⟩ := List.append_inj (List.cons.inj h).2
    ((u32be_length hsize).trans (u32be_length hsize').symm)
  exact ⟨payload, hpayload, hpayload'⟩

theorem termsBytes_append {ts us : List Term} {raw : List UInt8} :
    termsBytes (ts ++ us) = .ok raw ↔
      ∃ a b, termsBytes ts = .ok a ∧ termsBytes us = .ok b ∧ raw = a ++ b := by
  induction ts generalizing raw with
  | nil => simp [termsBytes]
  | cons t ts ih =>
    simp only [List.cons_append, termsBytes, bind_ok_iff, ih]
    constructor
    · rintro ⟨head, hhead, rest, ⟨a, b, ha, hb, rfl⟩, h⟩
      cases h
      exact ⟨head ++ a, b, ⟨head, hhead, a, ha, rfl⟩, hb, by rw [List.append_assoc]⟩
    · rintro ⟨_, b, ⟨head, hhead, a, ha, h⟩, hb, rfl⟩
      cases h
      exact ⟨head, hhead, a ++ b, ⟨a, b, ha, hb, rfl⟩, by rw [List.append_assoc]⟩

theorem termsBytes_cancel {ts us : List Term} (hlength : ts.length = us.length)
    {a b x y : List UInt8} (ha : termsBytes ts = .ok a) (hb : termsBytes us = .ok b)
    (h : a ++ x = b ++ y) : a = b ∧ x = y := by
  induction ts generalizing us a b with
  | nil =>
    obtain rfl := List.length_eq_zero_iff.mp hlength.symm
    cases ha
    cases hb
    exact ⟨rfl, h⟩
  | cons t ts ih =>
    cases us with
    | nil => cases hlength
    | cons u us =>
      unfold termsBytes at ha hb
      obtain ⟨head, hhead, ha⟩ := bind_ok_iff.mp ha
      obtain ⟨rest, hrest, ha⟩ := bind_ok_iff.mp ha
      obtain ⟨head', hhead', hb⟩ := bind_ok_iff.mp hb
      obtain ⟨rest', hrest', hb⟩ := bind_ok_iff.mp hb
      cases ha
      cases hb
      rw [List.append_assoc, List.append_assoc] at h
      obtain ⟨rfl, htail⟩ := termBytes_cancel hhead hhead' h
      obtain ⟨rfl, hxy⟩ := ih (Nat.succ.inj hlength) hrest hrest' htail
      exact ⟨rfl, hxy⟩

/-- Terms are encoded by their number and their frames. -/
theorem canonicalBytesTupV1_ok_iff {ts : List Term} {raw : List UInt8} :
    canonicalBytesTupV1 ts = .ok raw ↔
      ∃ count body, u32be ts.length = .ok count ∧ termsBytes ts = .ok body ∧
        raw = tupV1Prefix ++ count ++ body := by
  unfold canonicalBytesTupV1
  simp only [bind_ok_iff]
  constructor
  · rintro ⟨count, hcount, body, hbody, h⟩
    cases h
    exact ⟨count, body, hcount, hbody, rfl⟩
  · rintro ⟨count, body, hcount, hbody, rfl⟩
    exact ⟨count, hcount, body, hbody, rfl⟩

/-- Canonical bytes tell how many terms there are, and all their frames. -/
theorem canonicalBytesTupV1_inj {ts us : List Term} {raw : List UInt8}
    (ht : canonicalBytesTupV1 ts = .ok raw) (hu : canonicalBytesTupV1 us = .ok raw) :
    ts.length = us.length ∧ termsBytes ts = termsBytes us := by
  obtain ⟨count, body, hcount, hbody, rfl⟩ := canonicalBytesTupV1_ok_iff.mp ht
  obtain ⟨count', body', hcount', hbody', h⟩ := canonicalBytesTupV1_ok_iff.mp hu
  rw [List.append_assoc, List.append_assoc] at h
  obtain ⟨rfl, rfl⟩ := List.append_inj (List.append_cancel_left h)
    ((u32be_length hcount).trans (u32be_length hcount').symm)
  exact ⟨u32be_inj hcount hcount', hbody.trans hbody'.symm⟩

/-! ## Values and their encodings -/

/-- A typed value is a scalar, and no infinity or `nan`. -/
theorem scalar_of_encodeValueBytes {tag : String} {value : Datum} {raw : List UInt8}
    (h : encodeValueBytes tag value = .ok raw) :
    ∃ s, value = .leaf s ∧ ∀ x, s = .float x → x.isFinite = true := by
  unfold encodeValueBytes at h
  split at h
  case h_1 =>
    obtain ⟨s, hs, -⟩ := map_ok_iff.mp h
    exact ⟨.str s, (requireEntityRef_ok hs).1, fun x hx => nomatch hx⟩
  case h_2 =>
    obtain ⟨s, hs, -⟩ := map_ok_iff.mp h
    exact ⟨.str s, requireString_ok hs, fun x hx => nomatch hx⟩
  case h_3 =>
    obtain ⟨i, hi, -⟩ := map_ok_iff.mp h
    exact ⟨.int i, requireInt64_ok hi, fun x hx => nomatch hx⟩
  case h_4 =>
    obtain ⟨bits, hbits, -⟩ := map_ok_iff.mp h
    unfold float64Bits at hbits
    split at hbits
    · rename_i x
      refine ⟨.float x, rfl, ?_⟩
      intro y hy
      cases hy
      by_contra hinfinite
      rw [if_neg hinfinite] at hbits
      cases hbits
    · rename_i s
      exact ⟨.str s, rfl, fun x hx => nomatch hx⟩
    · cases hbits
  case h_5 =>
    obtain ⟨b, hb, -⟩ := map_ok_iff.mp h
    exact ⟨.bool b, requireBool_ok hb, fun x hx => nomatch hx⟩
  case h_6 => exact ⟨.bytes raw, requireBytes_ok h, fun x hx => nomatch hx⟩
  case h_7 =>
    obtain ⟨i, hi, -⟩ := map_ok_iff.mp h
    exact ⟨.int i, requireInt64_ok hi, fun x hx => nomatch hx⟩
  case h_8 =>
    obtain ⟨s, hs, -⟩ := map_ok_iff.mp h
    exact ⟨.str s, (requireUuid_ok hs).1, fun x hx => nomatch hx⟩
  case h_9 => cases h

/-- Values of one tag with one encoding make terms with the same bytes. -/
theorem canonical_singleton {tag : String} {value decoded : Datum} {raw payload : List UInt8}
    (h : canonicalBytesTupV1 [(tag, value)] = .ok raw)
    (hvalue : encodeValueBytes tag value = .ok payload)
    (hdecoded : encodeValueBytes tag decoded = .ok payload) :
    canonicalBytesTupV1 [(tag, decoded)] = .ok raw := by
  have hterm : termBytes (tag, decoded) = termBytes (tag, value) := by
    unfold termBytes
    simp only [hvalue, hdecoded]
  have hterms : termsBytes [(tag, decoded)] = termsBytes [(tag, value)] := by
    unfold termsBytes
    rw [hterm]
  unfold canonicalBytesTupV1 at h ⊢
  rw [hterms]
  exact h

/-- The values of terms with canonical bytes. -/
theorem encode_of_canonical {terms : List Term} {raw : List UInt8}
    (h : canonicalBytesTupV1 terms = .ok raw) :
    ∀ t ∈ terms, ∃ payload, encodeValueBytes t.1 t.2 = .ok payload := by
  obtain ⟨count, body, -, hbody, -⟩ := canonicalBytesTupV1_ok_iff.mp h
  intro t ht
  obtain ⟨_, hterm⟩ := termBytes_of_termsBytes hbody t ht
  obtain ⟨_, payload, _, _, hpayload, _⟩ := termBytes_ok_iff.mp hterm
  exact ⟨payload, hpayload⟩

end FactGraph.Protocol
