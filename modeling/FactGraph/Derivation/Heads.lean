import FactGraph.Codec.Scalars
import FactGraph.Derivation.Identity

/-!
# Values of a head

`core/store/_builders.py`: how the value a head variable is bound to becomes a tagged term again. A
binding holds the cell of a claim argument, which is a text for most tags (`_val_atom_for_claim_arg`);
`coerce_value_for_tag` reads it as a value of the tag.

The value that is read has the canonical bytes of the value the cell was made of, whatever the tag
(`coerce_claimArg`).
-/

namespace FactGraph.Derivation

open Protocol Store Check

/-! ## Coercion -/

/-- `_BYTES_B64URL_RE`. -/
def isBase64Url (s : String) : Bool :=
  s.toList.all fun c => (c.toNat < 128 && c.isAlphanum) || c == '_' || c == '-'

/-- `coerce_bytes`. -/
def coerceBytes : Datum → Except Rules.Err (List UInt8)
  | .leaf (.bytes raw) => .ok raw
  | .leaf (.str s) => do
      require (isBase64Url s) (.whereValidation "bytes string must be base64url no-pad")
      match Codec.urlsafeB64decode? s with
      | some raw => .ok raw
      | none => .error (.whereValidation "bytes string must be valid base64url")
  | _ => .error (.whereValidation "bytes value must be bytes-like or base64url string")

/-- The candidate of `coerce_value_for_tag` for an integer tag. -/
def coerceInteger (decimal int : String) : Datum → Except Rules.Err Datum
  | .leaf (.str s) =>
      match Rules.decInt? s with
      | some i => .ok (.leaf (.int i))
      | none => .error (.whereValidation decimal)
  | .leaf (.int i) => .ok (.leaf (.int i))
  | _ => .error (.whereValidation int)

/-- The candidate of `coerce_value_for_tag`, before it is encoded. -/
def coerceCandidate (tag : String) (value : Datum) : Except Rules.Err Datum :=
  match tag with
  | "entity_ref" =>
      match value with
      | .leaf (.str s) => do
          require (startsWith entityRefPrefix s)
            (.whereValidation "entity_ref value must be idref_v1 token")
          .ok value
      | _ => .error (.whereValidation "entity_ref value must be idref_v1 token")
  | "string" =>
      match value with
      | .leaf (.str _) => .ok value
      | _ => .error (.whereValidation "string value must be str")
  | "int" => coerceInteger "int string must be decimal integer" "int value must be int" value
  | "float64" =>
      match value with
      | .leaf (.float _) | .leaf (.str _) => .ok value
      | _ => .error (.whereValidation "float64 value must be float or 0x<16hex> string")
  | "bool" =>
      match value with
      | .leaf (.str "true") => .ok (.leaf (.bool true))
      | .leaf (.str "false") => .ok (.leaf (.bool false))
      | .leaf (.str _) => .error (.whereValidation "bool string must be 'true' or 'false'")
      | .leaf (.bool _) => .ok value
      | _ => .error (.whereValidation "bool value must be bool")
  | "bytes" => (coerceBytes value).map fun raw => .leaf (.bytes raw)
  | "time" =>
      coerceInteger "time string must be epoch-nanos decimal int" "time value must be epoch-nanos int"
        value
  | "uuid" =>
      match value with
      | .leaf (.str _) => .ok value
      | _ => .error (.whereValidation "uuid value must be canonical string")
  | tag => .error (.whereValidation s!"unsupported tag: {tag}")

/-- An exception of the canonical encoding, where `except ValueError` wraps what it catches. -/
def wrapValueError (wrap : String → Rules.Err) : StoreErr → Rules.Err
  | .valueError msg => wrap msg
  | .overflowError msg => .overflowError msg
  | .typeError msg => .typeError msg
  | .integrityError msg | .ledgerFormat msg | .ledgerHeadConflict msg | .duplicateIngestKey msg
  | .writeProtocol msg | .policyNonDeterminism msg | .viewProjection msg | .database msg =>
      .valueError msg

/-- `coerce_value_for_tag`. -/
def coerceValueForTag (tag : String) (value : Datum) : Except Rules.Err Datum := do
  let candidate ← coerceCandidate tag value
  match canonicalBytesTupV1 [(tag, candidate)] with
  | .ok _ => .ok candidate
  | .error e => .error (wrapValueError (fun msg => .whereValidation s!"invalid {tag} value: {msg}") e)

/-! ## Cells -/

/-- A cell as an object; a number with a fraction is the one cell that no claim argument is. -/
def cellDatum? : Rules.Value → Option Datum
  | .none => some (.leaf .none)
  | .bool b => some (.leaf (.bool b))
  | .int i => some (.leaf (.int i))
  | .str s => some (.leaf (.str s))
  | .bytes raw => some (.leaf (.bytes raw))
  | .float _ => none

theorem isBase64Url_urlsafeBase64 (raw : List UInt8) : isBase64Url (urlsafeBase64 raw) = true := by
  have hchar : ∀ n : Fin 64, ((base64Char '-' '_' n).toNat < 128 &&
      (base64Char '-' '_' n).isAlphanum || base64Char '-' '_' n == '_' ||
        base64Char '-' '_' n == '-') = true := by decide
  unfold isBase64Url urlsafeBase64
  rw [String.toList_ofList, List.all_map, List.all_eq_true]
  intro n hn
  exact hchar ⟨n, Codec.base64Digits_lt raw n hn⟩

/-- The cell of a typed value is a candidate for a value with the same bytes. -/
theorem candidate_of_encodeValueBytes {tag : String} {value : Datum} {raw : List UInt8}
    (h : encodeValueBytes tag value = .ok raw) :
    ∃ atom cell candidate, valAtomForClaimArg tag value = .ok atom ∧ cellDatum? atom = some cell ∧
      coerceCandidate tag cell = .ok candidate ∧ encodeValueBytes tag candidate = .ok raw := by
  unfold encodeValueBytes at h
  split at h
  case h_1 =>
    obtain ⟨s, hs, rfl⟩ := map_ok_iff.mp h
    obtain ⟨rfl, hstart⟩ := requireEntityRef_ok hs
    refine ⟨.str s, .leaf (.str s), .leaf (.str s), ?_, rfl, ?_, h⟩
    · simp [valAtomForClaimArg, hs, Except.map]
    · simp only [coerceCandidate, require_of_true hstart, ok_bind]
  case h_2 =>
    obtain ⟨s, hs, rfl⟩ := map_ok_iff.mp h
    obtain rfl := requireString_ok hs
    exact ⟨.str s, .leaf (.str s), .leaf (.str s), rfl, rfl, rfl, h⟩
  case h_3 =>
    obtain ⟨i, hi, rfl⟩ := map_ok_iff.mp h
    obtain rfl := requireInt64_ok hi
    exact ⟨.int i, .leaf (.int i), .leaf (.int i), by simp [valAtomForClaimArg, hi, Except.map], rfl,
      rfl, h⟩
  case h_4 =>
    obtain ⟨bits, hbits, rfl⟩ := map_ok_iff.mp h
    refine ⟨.str (float64Hex bits), .leaf (.str (float64Hex bits)), .leaf (.str (float64Hex bits)),
      ?_, rfl, rfl, ?_⟩
    · simp [valAtomForClaimArg, hbits, Except.map]
    · simp [encodeValueBytes, float64Bits_hex hbits, Except.map]
  case h_5 =>
    obtain ⟨b, hb, rfl⟩ := map_ok_iff.mp h
    obtain rfl := requireBool_ok hb
    exact ⟨.bool b, .leaf (.bool b), .leaf (.bool b), rfl, rfl, rfl, h⟩
  case h_6 =>
    obtain rfl := requireBytes_ok h
    refine ⟨.str (urlsafeBase64 raw), .leaf (.str (urlsafeBase64 raw)), .leaf (.bytes raw), rfl, rfl,
      ?_, h⟩
    simp only [coerceCandidate, coerceBytes, require_of_true (isBase64Url_urlsafeBase64 raw), ok_bind,
      Codec.urlsafeB64decode?_urlsafeBase64]
    rfl
  case h_7 =>
    obtain ⟨i, hi, rfl⟩ := map_ok_iff.mp h
    obtain rfl := requireInt64_ok hi
    exact ⟨.int i, .leaf (.int i), .leaf (.int i), by simp [valAtomForClaimArg, hi, Except.map], rfl,
      rfl, h⟩
  case h_8 =>
    obtain ⟨s, hs, rfl⟩ := map_ok_iff.mp h
    obtain rfl := (requireUuid_ok hs).1
    exact ⟨.str s, .leaf (.str s), .leaf (.str s), by simp [valAtomForClaimArg, hs], rfl, rfl, h⟩
  case h_9 => cases h

/-- **A claim argument denotes its value.** The cell of a typed value is coerced back to a value of the
tag with the same canonical bytes. -/
theorem coerce_claimArg {tag : String} {value : Datum} {raw : List UInt8}
    (h : canonicalBytesTupV1 [(tag, value)] = .ok raw) :
    ∃ atom cell coerced, valAtomForClaimArg tag value = .ok atom ∧ cellDatum? atom = some cell ∧
      coerceValueForTag tag cell = .ok coerced ∧
      canonicalBytesTupV1 [(tag, coerced)] = .ok raw := by
  obtain ⟨payload, hpayload⟩ := encode_of_canonical h (tag, value) (by simp)
  obtain ⟨atom, cell, coerced, hatom, hcell, hcandidate, hbytes⟩ :=
    candidate_of_encodeValueBytes hpayload
  have hraw := canonical_singleton h hpayload hbytes
  refine ⟨atom, cell, coerced, hatom, hcell, ?_, hraw⟩
  unfold coerceValueForTag
  rw [hcandidate, ok_bind, hraw]

/-- Bytes are a claim argument as base 64 and come back as bytes. -/
theorem coerce_claimArg_bytes :
    ∃ atom cell coerced, valAtomForClaimArg "bytes" (.leaf (.bytes [1, 2])) = .ok atom ∧
      cellDatum? atom = some cell ∧ coerceValueForTag "bytes" cell = .ok coerced ∧
      (canonicalBytesTupV1 [("bytes", coerced)]).toOption =
        (canonicalBytesTupV1 [("bytes", .leaf (.bytes [1, 2]))]).toOption := by
  have hraw : canonicalBytesTupV1 [("bytes", .leaf (.bytes [1, 2]))] =
      .ok (tupV1Prefix ++ [0, 0, 0, 1] ++ [5, 0, 0, 0, 2, 1, 2]) := by decide
  obtain ⟨atom, cell, coerced, hatom, hcell, hcoerced, hbytes⟩ := coerce_claimArg hraw
  exact ⟨atom, cell, coerced, hatom, hcell, hcoerced, by rw [hbytes, hraw]⟩

end FactGraph.Derivation
