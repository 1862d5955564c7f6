import FactGraph.Protocol.Framing
import Std.Data.String.ToInt

/-!
# Normalised values

What the canonical encoders keep of a value. Every tag takes its values to a normal form — both
zeros of a float are one, a float may come as its hexadecimal form — and the bytes of a value spell
its normal form, for every tag. With the frames around them, the canonical bytes of a list of terms
spell the tags and the normal forms of all of them (`canonicalBytesTupV1_normalised`).
-/

namespace FactGraph.Protocol

open Check

/-- The normal forms of the eight tags. -/
inductive Normal where
  | text (s : String)
  | int (i : Int)
  | float (bits : UInt64)
  | bool (b : Bool)
  | bytes (raw : List UInt8)
  deriving DecidableEq, Repr

/-- The value as the encoder normalises it. -/
def normalise (tag : String) (value : Datum) : Except StoreErr Normal :=
  match tag with
  | "entity_ref" => (requireEntityRef value).map .text
  | "string" => (requireString value).map .text
  | "int" => (requireInt64 "int" value).map .int
  | "float64" => (float64Bits value).map .float
  | "bool" => (requireBool value).map .bool
  | "bytes" => (requireBytes value).map .bytes
  | "time" => (requireInt64 "time" value).map .int
  | "uuid" => (requireUuid value).map .text
  | tag => .error (.valueError s!"unknown tag: {tag}")

/-! ## The bytes of a value -/

theorem requireInt64_range {field : String} {v : Datum} {i : Int}
    (h : requireInt64 field v = .ok i) : -2 ^ 63 ≤ i ∧ i ≤ 2 ^ 63 - 1 := by
  unfold requireInt64 at h
  split at h
  · split at h
    · rename_i hrange
      rw [← Except.ok.inj h]
      exact hrange
    · cases h
  · cases h

/-- The bytes of a time. -/
theorem timeBytes_inj {i j : Int} (hi : -2 ^ 63 ≤ i ∧ i ≤ 2 ^ 63 - 1)
    (hj : -2 ^ 63 ≤ j ∧ j ≤ 2 ^ 63 - 1)
    (h : bigEndian 8 (i % 2 ^ 64).toNat = bigEndian 8 (j % 2 ^ 64).toNat) : i = j := by
  have hmod := bigEndian_inj h
  simp only [Int.reducePow, Nat.reducePow, Int.reduceNeg, Int.reduceSub] at hmod hi hj
  omega

theorem floatBytes_inj {x y : UInt64} (h : bigEndian 8 x.toNat = bigEndian 8 y.toNat) : x = y := by
  have hmod := bigEndian_inj h
  have hx := x.toNat_lt
  have hy := y.toNat_lt
  rw [Nat.mod_eq_of_lt (by omega), Nat.mod_eq_of_lt (by omega)] at hmod
  exact UInt64.toNat_inj.mp hmod

/-- Nibbles in pairs, as the bytes of a UUID hold them. -/
theorem pairs_inj {xs ys : List Nat} (hlen : xs.length = ys.length) (heven : xs.length % 2 = 0)
    (hx : ∀ x ∈ xs, x < 16) (hy : ∀ y ∈ ys, y < 16)
    (h : uuidBytes.pairs xs = uuidBytes.pairs ys) : xs = ys := by
  induction xs using uuidBytes.pairs.induct generalizing ys with
  | case1 hi lo rest ih =>
    match ys, hlen with
    | hi' :: lo' :: rest', hlen =>
      simp only [uuidBytes.pairs, List.cons.injEq] at h
      simp only [List.mem_cons, forall_eq_or_imp] at hx hy
      have hbyte : hi * 16 + lo = hi' * 16 + lo' := by
        have hval := congrArg UInt8.toNat h.1
        rw [UInt8.toNat_ofNat', UInt8.toNat_ofNat'] at hval
        omega
      have hrest : rest = rest' := by
        apply ih _ _ hx.2.2 hy.2.2 h.2
        · simpa using hlen
        · simp only [List.length_cons] at heven
          omega
      rw [show hi = hi' by omega, show lo = lo' by omega, hrest]
  | case2 xs hxs =>
    match xs, ys, hlen with
    | [], [], _ => rfl
    | [x], [y], _ => simp at heven
    | x :: x' :: rest, _, _ => exact absurd rfl (hxs x x' rest)

/-- The characters of a canonical UUID, from the index `i` on: hyphens in four places, and
hexadecimal digits in the others. -/
def UuidFrom (i : Nat) (cs : List Char) : Prop :=
  ∀ p ∈ cs.zipIdx i, (p.2 ∈ [8, 13, 18, 23] → p.1 = '-') ∧
    (p.2 ∉ [8, 13, 18, 23] → ∃ d, hexValue? p.1 = some d)

theorem uuidFrom_cons {i : Nat} {c : Char} {cs : List Char} (h : UuidFrom i (c :: cs)) :
    (i ∈ [8, 13, 18, 23] → c = '-') ∧ (i ∉ [8, 13, 18, 23] → ∃ d, hexValue? c = some d) ∧
      UuidFrom (i + 1) cs := by
  unfold UuidFrom at h
  rw [List.zipIdx_cons, List.forall_mem_cons] at h
  exact ⟨h.1.1, h.1.2, h.2⟩

/-- The digits of a UUID spell it. -/
theorem uuid_digits_inj {i : Nat} {cs ds : List Char} (hlen : cs.length = ds.length)
    (hc : UuidFrom i cs) (hd : UuidFrom i ds)
    (h : cs.filterMap hexValue? = ds.filterMap hexValue?) : cs = ds := by
  induction cs generalizing i ds with
  | nil => exact (List.length_eq_zero_iff.mp hlen.symm).symm
  | cons c cs ih =>
    cases ds with
    | nil => cases hlen
    | cons d ds =>
      rcases uuidFrom_cons hc with ⟨hdash, hdigit, hc⟩
      rcases uuidFrom_cons hd with ⟨hdash', hdigit', hd⟩
      have hlen : cs.length = ds.length := Nat.succ.inj hlen
      by_cases hi : i ∈ [8, 13, 18, 23]
      · rw [hdash hi, hdash' hi] at h ⊢
        rw [ih hlen hc hd h]
      · rcases hdigit hi with ⟨x, hx⟩
        rcases hdigit' hi with ⟨y, hy⟩
        rw [List.filterMap_cons_some hx, List.filterMap_cons_some hy, List.cons.injEq] at h
        rw [← (hexDigit_of_hexValue? hx).2, ← (hexDigit_of_hexValue? hy).2, h.1, ih hlen hc hd h.2]

theorem uuidFrom_of_canonical {s : String} (h : isCanonicalUuid s = true) :
    s.toList.length = 36 ∧ UuidFrom 0 s.toList := by
  unfold isCanonicalUuid at h
  rw [Bool.and_eq_true, beq_iff_eq, List.all_eq_true] at h
  refine ⟨h.1, ?_⟩
  intro p hp
  have hchar := h.2 p hp
  by_cases hi : p.2 ∈ [8, 13, 18, 23]
  · exact ⟨fun _ => by simpa [hi] using hchar, fun hno => absurd hi hno⟩
  · refine ⟨fun hyes => absurd hyes hi, fun _ => ?_⟩
    simp only [if_neg hi] at hchar
    exact Option.isSome_iff_exists.mp hchar

/-- There is a digit at every place that is not a hyphen's. -/
theorem length_uuid_digits {i : Nat} {cs : List Char} (h : UuidFrom i cs) :
    (cs.filterMap hexValue?).length =
      ((List.range' i cs.length).filter fun j => j ∉ [8, 13, 18, 23]).length := by
  induction cs generalizing i with
  | nil => rfl
  | cons c cs ih =>
    rcases uuidFrom_cons h with ⟨hdash, hdigit, h⟩
    rw [List.length_cons, List.range'_succ]
    by_cases hi : i ∈ [8, 13, 18, 23]
    · rw [hdash hi, List.filter_cons, if_neg (by rw [decide_eq_true_eq, not_not]; exact hi), ← ih h]
      rfl
    · rcases hdigit hi with ⟨d, hd⟩
      rw [List.filterMap_cons_some hd, List.filter_cons, if_pos (decide_eq_true hi),
        List.length_cons, List.length_cons, ih h]

/-- A canonical UUID has thirty-two digits. -/
theorem uuid_digits {s : String} (h : isCanonicalUuid s = true) :
    (s.toList.filterMap hexValue?).length = 32 := by
  rcases uuidFrom_of_canonical h with ⟨hlen, hchars⟩
  rw [length_uuid_digits hchars, hlen]
  decide

theorem uuidBytes_inj {s t : String} (hs : isCanonicalUuid s = true)
    (ht : isCanonicalUuid t = true) (h : uuidBytes s = uuidBytes t) : s = t := by
  rcases uuidFrom_of_canonical hs with ⟨hslen, hsc⟩
  rcases uuidFrom_of_canonical ht with ⟨htlen, htc⟩
  have hlt : ∀ cs : List Char, ∀ x ∈ cs.filterMap hexValue?, x < 16 := by
    intro cs x hx
    rcases List.mem_filterMap.mp hx with ⟨c, _, hc⟩
    exact (hexDigit_of_hexValue? hc).1
  have hdigits : s.toList.filterMap hexValue? = t.toList.filterMap hexValue? := by
    apply pairs_inj _ _ (hlt _) (hlt _) h
    · rw [uuid_digits hs, uuid_digits ht]
    · rw [uuid_digits hs]
  exact String.toList_inj.mp (uuid_digits_inj (hslen.trans htlen.symm) hsc htc hdigits)

/-! ## Injectivity -/

/-- **The bytes of a value spell its normal form.** -/
theorem normalise_of_encode {tag : String} {v w : Datum} {raw : List UInt8}
    (hv : encodeValueBytes tag v = .ok raw) (hw : encodeValueBytes tag w = .ok raw) :
    ∃ n, normalise tag v = .ok n ∧ normalise tag w = .ok n := by
  unfold encodeValueBytes at hv hw
  unfold normalise
  split at hv
  case h_9 => cases hv
  case h_6 =>
    have hw : requireBytes w = .ok raw := hw
    exact ⟨.bytes raw, by rw [hv]; rfl, by rw [hw]; rfl⟩
  all_goals
    rcases map_ok_iff.mp hv with ⟨x, hx, hraw⟩
    rcases map_ok_iff.mp hw with ⟨y, hy, rfl⟩
  case h_1 => exact ⟨.text x, by rw [hx]; rfl, by rw [hy, utf8_injective hraw]; rfl⟩
  case h_2 => exact ⟨.text x, by rw [hx]; rfl, by rw [hy, utf8_injective hraw]; rfl⟩
  case h_3 =>
    have hxy : x = y := Int.repr_injective (utf8_injective hraw)
    exact ⟨.int x, by rw [hx]; rfl, by rw [hy, hxy]; rfl⟩
  case h_4 => exact ⟨.float x, by rw [hx]; rfl, by rw [hy, floatBytes_inj hraw]; rfl⟩
  case h_5 =>
    have hxy : x = y := by
      cases x <;> cases y <;> first | rfl | exact absurd hraw (by decide)
    exact ⟨.bool x, by rw [hx]; rfl, by rw [hy, hxy]; rfl⟩
  case h_7 =>
    have hxy : x = y := timeBytes_inj (requireInt64_range hx) (requireInt64_range hy) hraw
    exact ⟨.int x, by rw [hx]; rfl, by rw [hy, hxy]; rfl⟩
  case h_8 =>
    have hxy : x = y := uuidBytes_inj (requireUuid_ok hx).2 (requireUuid_ok hy).2 hraw
    exact ⟨.text x, by rw [hx]; rfl, by rw [hy, hxy]; rfl⟩

/-- A code stands for one tag. -/
theorem tagCode?_inj {tag tag' : String} {code : UInt8} (h : tagCode? tag = some code)
    (h' : tagCode? tag' = some code) : tag = tag' := by
  unfold tagCode? at h h'
  split at h <;> cases h <;> split at h' <;> first | rfl | cases h'

/-- The normal form of a term. -/
def normaliseTerm (term : Term) : Except StoreErr (String × Normal) :=
  (normalise term.1 term.2).map fun n => (term.1, n)

/-- The frame of a term spells its tag and its normal form. -/
theorem normaliseTerm_of_termBytes {t u : Term} {raw : List UInt8} (ht : termBytes t = .ok raw)
    (hu : termBytes u = .ok raw) : ∃ n, normaliseTerm t = .ok n ∧ normaliseTerm u = .ok n := by
  rcases termBytes_ok_iff.mp ht with ⟨code, payload, size, hcode, hpayload, hsize, rfl⟩
  rcases termBytes_ok_iff.mp hu with ⟨code', payload', size', hcode', hpayload', hsize', h⟩
  simp only [List.cons_append, List.cons.injEq] at h
  have htag : t.1 = u.1 := tagCode?_inj hcode (h.1 ▸ hcode')
  rcases List.append_inj h.2 ((u32be_length hsize).trans (u32be_length hsize').symm) with ⟨_, rfl⟩
  rw [htag] at hpayload
  rcases normalise_of_encode hpayload hpayload' with ⟨n, hn, hn'⟩
  refine ⟨(u.1, n), ?_, ?_⟩
  · unfold normaliseTerm
    rw [htag, hn]
    rfl
  · unfold normaliseTerm
    rw [hn']
    rfl

theorem normalise_of_termsBytes {ts us : List Term} {raw : List UInt8}
    (hlen : ts.length = us.length) (ht : termsBytes ts = .ok raw) (hu : termsBytes us = .ok raw) :
    ∃ ns, mapOk normaliseTerm ts = .ok ns ∧ mapOk normaliseTerm us = .ok ns := by
  induction ts generalizing us raw with
  | nil =>
    rw [List.length_eq_zero_iff.mp hlen.symm]
    exact ⟨[], rfl, rfl⟩
  | cons t ts ih =>
    cases us with
    | nil => cases hlen
    | cons u us =>
      unfold termsBytes at ht hu
      rcases bind_ok_iff.mp ht with ⟨head, hhead, ht⟩
      rcases bind_ok_iff.mp ht with ⟨rest, hrest, ht⟩
      rcases bind_ok_iff.mp hu with ⟨head', hhead', hu⟩
      rcases bind_ok_iff.mp hu with ⟨rest', hrest', hu⟩
      have happend : head ++ rest = head' ++ rest' :=
        (Except.ok.inj ht).trans (Except.ok.inj hu).symm
      rcases termBytes_cancel hhead hhead' happend with ⟨rfl, rfl⟩
      rcases normaliseTerm_of_termBytes hhead hhead' with ⟨n, hn, hn'⟩
      rcases ih (Nat.succ.inj hlen) hrest hrest' with ⟨ns, hns, hns'⟩
      refine ⟨n :: ns, ?_, ?_⟩
      · unfold mapOk
        rw [hn, ok_bind, hns]
        rfl
      · unfold mapOk
        rw [hn', ok_bind, hns']
        rfl

/-- **Terms with one encoding have the same tags and the same normal forms, in the same order.** -/
theorem canonicalBytesTupV1_normalised {ts us : List Term} {raw : List UInt8}
    (ht : canonicalBytesTupV1 ts = .ok raw) (hu : canonicalBytesTupV1 us = .ok raw) :
    ∃ ns, mapOk normaliseTerm ts = .ok ns ∧ mapOk normaliseTerm us = .ok ns := by
  rcases canonicalBytesTupV1_ok_iff.mp ht with ⟨_, body, _, hbody, _⟩
  rcases canonicalBytesTupV1_inj ht hu with ⟨hlen, hbytes⟩
  exact normalise_of_termsBytes hlen hbody (hbytes ▸ hbody)

end FactGraph.Protocol
