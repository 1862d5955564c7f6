import FactGraph.Evaluate.Expectation
import FactGraph.Protocol.Normal

/-!
# Typed values of rows and of expectations

A displayed term, a captured value and a value that an expectation names all stand for a typed value:
a tag and a normal form of the tag (`Typed`). A cell and a digest are functions of it, and **tell it**
(`Means.matches_iff`). What is read back from storage form is the value that was stored
(`storedTyped_cellOf`), and what `_normalize_expected_value` returns are the cell and the digest of the
value that is named (`normalizeExpectedValue_ok`).
-/

namespace FactGraph.Evaluate

open Protocol Codec Store Check Entity

/-! ## Typed values -/

/-- A tag and a value in the normal form of the tag. -/
abbrev Typed := String × Normal

/-- The typed value of an object under a tag. -/
def typedOf (tag : String) (value : Datum) : Option Typed :=
  (normalise tag value).toOption.map fun n => (tag, n)

/-- The typed value of an object in storage form, where text stands for bytes. -/
def storedTyped (tag : String) (value : Datum) : Option Typed :=
  (decodedBytes tag value).toOption.bind (typedOf tag)

/-- What a displayed term says. -/
def displayedTyped : Val → Option Typed
  | .mapping term =>
      match Dict.get? term "kind", Dict.get? term "tag", Dict.get? term "value" with
      | some (.str "entity_ref"), _, some value => storedTyped "entity_ref" value.datum
      | some (.str "literal"), some (.str tag), some value => storedTyped tag value.datum
      | _, _, _ => none
  | _ => none

/-- The typed value of a row at an alias. -/
def EvaluateRow.typed (row : EvaluateRow) (aliasName : String) : Option Typed :=
  (Dict.get? row.bindings aliasName).bind displayedTyped

/-- The typed value that an expectation names for a selection: a reference to an entity, or a scalar
of the type of the selection. -/
def expectedTyped (entityHost : Entity.Host) (index : SchemaIndex) (s : Policy.ResolvedSelection) :
    FieldValue → Option Typed
  | .ref ref =>
      ((do
        let identity ← materializeIdentity entityHost index ref.entityType ref.identity
        encodeEntityRef entityHost index ⟨ref.entityType, identity, none⟩).toOption).map
          fun encoded => ("entity_ref", .text encoded)
  | .scalar d => typedOf s.valueType (Policy.lowerUuid s.valueType d)

/-! ## The cell of a typed value -/

/-- The cell of a normal form. -/
def cellOf : Normal → Rules.Value
  | .text s => .str s
  | .int i => .int i
  | .float bits => .str (float64Hex bits)
  | .bool b => .bool b
  | .bytes raw => .str (urlsafeBase64 raw)

theorem valAtom_ok_iff {tag : String} {v : Datum} {cell : Rules.Value} :
    valAtomForClaimArg tag v = .ok cell ↔ ∃ n, normalise tag v = .ok n ∧ cellOf n = cell := by
  have hmap : ∀ {α : Type} (x : Except StoreErr α) (f : α → Normal) (g : α → Rules.Value),
      (∀ a, cellOf (f a) = g a) →
        (x.map g = .ok cell ↔ ∃ n, x.map f = .ok n ∧ cellOf n = cell) := by
    intro α x f g hfg
    cases x with
    | error e => simp [Except.map]
    | ok a => simp [Except.map, hfg]
  unfold valAtomForClaimArg normalise
  split
  case h_8 =>
    cases requireUuid v with
    | error e => simp [Except.map]
    | ok s => simp [Except.map, cellOf]
  case h_9 => simp
  all_goals exact hmap _ _ _ fun _ => rfl

theorem float64Hex_injective {b c : UInt64} (h : float64Hex b = float64Hex c) : b = c := by
  have hparse := congrArg parseFloat64Hex? h
  rw [parseFloat64Hex?_float64Hex, parseFloat64Hex?_float64Hex] at hparse
  exact Option.some.inj hparse

theorem urlsafeBase64_injective {b c : List UInt8} (h : urlsafeBase64 b = urlsafeBase64 c) :
    b = c := by
  have hdecode := congrArg urlsafeB64decode? h
  rw [urlsafeB64decode?_urlsafeBase64, urlsafeB64decode?_urlsafeBase64] at hdecode
  exact Option.some.inj hdecode

/-- **A typed value is told by its cell**, as Python compares cells. -/
theorem cellOf_eqv_iff {tag : String} {v w : Datum} {n m : Normal} (hn : normalise tag v = .ok n)
    (hm : normalise tag w = .ok m) : (cellOf n).eqv (cellOf m) = true ↔ n = m := by
  unfold normalise at hn hm
  split at hn
  case h_9 => cases hn
  all_goals
    rcases map_ok_iff.mp hn with ⟨a, -, rfl⟩
    rcases map_ok_iff.mp hm with ⟨b, -, rfl⟩
    simp only [Rules.Value.eqv_iff, cellOf, Rules.Value.canon, Rules.Value.number?,
      Rules.Value.str.injEq, Rules.Value.float.injEq, Normal.text.injEq, Normal.int.injEq,
      Normal.float.injEq, Normal.bool.injEq, Normal.bytes.injEq, Int.cast_inj]
  case h_4 => exact ⟨float64Hex_injective, congrArg float64Hex⟩
  case h_5 => cases a <;> cases b <;> simp
  case h_6 => exact ⟨urlsafeBase64_injective, congrArg urlsafeBase64⟩

/-- The bytes of a value are those of its normal form. -/
theorem encodeValueBytes_congr {tag : String} {v w : Datum} {n : Normal}
    (hv : normalise tag v = .ok n) (hw : normalise tag w = .ok n) :
    encodeValueBytes tag v = encodeValueBytes tag w := by
  unfold normalise at hv hw
  unfold encodeValueBytes
  split at hv
  case h_9 => cases hv
  all_goals
    rcases map_ok_iff.mp hv with ⟨a, ha, rfl⟩
    rcases map_ok_iff.mp hw with ⟨b, hb, h⟩
    cases h
    simp only [ha, hb]

theorem canonicalBytes_congr {tag : String} {v w : Datum} {n : Normal}
    (hv : normalise tag v = .ok n) (hw : normalise tag w = .ok n) :
    canonicalBytesTupV1 [(tag, v)] = canonicalBytesTupV1 [(tag, w)] := by
  simp only [canonicalBytesTupV1, termsBytes, termBytes, encodeValueBytes_congr hv hw,
    List.length_singleton]

/-- The storage form of a typed value is read as that value. -/
theorem storedTyped_cellOf {tag : String} {v : Datum} {n : Normal} (h : normalise tag v = .ok n) :
    ∃ raw, decodedBytes tag (View.datumOf (cellOf n)) = .ok raw ∧ normalise tag raw = .ok n := by
  unfold normalise at h
  split at h
  case h_9 => cases h
  all_goals rcases map_ok_iff.mp h with ⟨a, ha, rfl⟩
  case h_1 => exact ⟨v, by rw [requireEntityRef_ok ha |>.1]; rfl, by simp [normalise, ha, Except.map]⟩
  case h_2 => exact ⟨v, by rw [requireString_ok ha]; rfl, by simp [normalise, ha, Except.map]⟩
  case h_3 => exact ⟨v, by rw [requireInt64_ok ha]; rfl, by simp [normalise, ha, Except.map]⟩
  case h_4 =>
    refine ⟨.leaf (.str (float64Hex a)), rfl, ?_⟩
    simp [normalise, float64Bits_hex ha, Except.map]
  case h_5 => exact ⟨v, by rw [requireBool_ok ha]; rfl, by simp [normalise, ha, Except.map]⟩
  case h_6 =>
    refine ⟨.leaf (.bytes a), ?_, rfl⟩
    simp only [cellOf, View.datumOf, decodedBytes, if_true, urlsafeB64decode?_urlsafeBase64]
  case h_7 => exact ⟨v, by rw [requireInt64_ok ha]; rfl, by simp [normalise, ha, Except.map]⟩
  case h_8 => exact ⟨v, by rw [requireUuid_ok ha |>.1]; rfl, by simp [normalise, ha, Except.map]⟩

/-! ## The size of a value -/

/-- A character is at least one byte. -/
theorem length_le_utf8 (cs : List Char) : cs.length ≤ (utf8 (String.ofList cs)).length := by
  have hbytes : utf8 (String.ofList cs) = cs.flatMap String.utf8EncodeChar := by
    unfold utf8
    rw [String.toByteArray_ofList]
    simp [List.utf8Encode]
  rw [hbytes]
  clear hbytes
  induction cs with
  | nil => simp
  | cons c cs ih =>
    have hchar := c.utf8Size_pos
    rw [List.flatMap_cons, List.length_append, List.length_cons, String.length_utf8EncodeChar]
    omega

theorem length_base64Digits_ge (raw : List UInt8) : raw.length ≤ (base64Digits raw).length := by
  fun_induction base64Digits raw with
  | case1 => simp
  | case2 a => simp
  | case3 a b => simp
  | case4 a b c rest ih =>
    simp only [List.length_cons]
    omega

theorem length_uuidPairs (ds : List Nat) : 2 * (uuidBytes.pairs ds).length ≤ ds.length := by
  fun_induction uuidBytes.pairs ds with
  | case1 hi lo rest ih =>
    simp only [List.length_cons]
    omega
  | case2 ds h => simp

theorem length_bigEndian (n v : Nat) : (bigEndian n v).length = n := by
  induction n generalizing v with
  | zero => rfl
  | succ n ih => rw [bigEndian, List.length_append, ih, List.length_singleton]

/-- The bytes of a value are not many more than the text of its cell. -/
theorem length_payload {tag : String} {v : Datum} {n : Normal} {payload : List UInt8}
    (hn : normalise tag v = .ok n) (h : encodeValueBytes tag v = .ok payload) :
    payload.length ≤ (utf8 (storedText (cellOf n))).length + 16 := by
  unfold normalise at hn
  unfold encodeValueBytes at h
  split at hn
  case h_9 => cases hn
  case h_6 =>
    rcases map_ok_iff.mp hn with ⟨a, ha, rfl⟩
    rw [ha] at h
    cases h
    have htext := length_le_utf8 ((base64Digits payload).map (base64Char '-' '_'))
    rw [List.length_map] at htext
    have hdigits := length_base64Digits_ge payload
    show payload.length ≤ (utf8 (urlsafeBase64 payload)).length + 16
    unfold urlsafeBase64
    omega
  all_goals
    rcases map_ok_iff.mp hn with ⟨a, ha, rfl⟩
    rcases map_ok_iff.mp h with ⟨b, hb, rfl⟩
    rw [ha] at hb
    cases hb
  case h_1 => exact Nat.le_add_right _ _
  case h_2 => exact Nat.le_add_right _ _
  case h_3 => exact Nat.le_add_right _ _
  case h_4 => rw [length_bigEndian]; omega
  case h_5 => simp
  case h_7 => rw [length_bigEndian]; omega
  case h_8 =>
    have hpairs := length_uuidPairs (a.toList.filterMap hexValue?)
    rw [uuid_digits (requireUuid_ok ha).2] at hpairs
    unfold uuidBytes
    omega

/-- A value whose text is within the limit of a bundle has canonical bytes. -/
theorem exists_canonicalBytes {tag : String} {v : Datum} {n : Normal}
    (hn : normalise tag v = .ok n)
    (hsize : (utf8 (storedText (cellOf n))).length ≤ maxRunBundleBytes) :
    ∃ bytes, canonicalBytesTupV1 [(tag, v)] = .ok bytes := by
  obtain ⟨code, hcode⟩ : ∃ code, tagCode? tag = some code := by
    unfold normalise at hn
    split at hn
    case h_9 => cases hn
    all_goals exact ⟨_, rfl⟩
  obtain ⟨payload, hpayload⟩ : ∃ payload, encodeValueBytes tag v = .ok payload := by
    unfold normalise at hn
    unfold encodeValueBytes
    split at hn
    case h_9 => cases hn
    all_goals
      rcases map_ok_iff.mp hn with ⟨a, ha, rfl⟩
      rw [ha]
      exact ⟨_, rfl⟩
  have hlength := length_payload hn hpayload
  have hmax : maxRunBundleBytes = 1048576 := rfl
  have hu32 : u32be payload.length = .ok (bigEndian 4 payload.length) := by
    unfold u32be
    rw [if_pos (by omega)]
  refine ⟨tupV1Prefix ++ bigEndian 4 1 ++ ((code :: bigEndian 4 payload.length ++ payload) ++ []), ?_⟩
  apply canonicalBytesTupV1_ok_iff.mpr
  refine ⟨bigEndian 4 1, _, rfl, ?_, rfl⟩
  simp only [termsBytes, termBytes, hcode, hpayload, hu32, ok_bind]

/-! ## Cells and digests -/

section

variable {host : Host Val} {tag : String} {n m : Normal} {cell cell' : Rules.Value}
  {digest digest' : String}

/-- The cell and the digest of a typed value. -/
structure Means (host : Host Val) (tag : String) (n : Normal) (cell : Rules.Value)
    (digest : String) : Prop where
  cell_eq : cellOf n = cell
  digest_eq : ∃ raw bytes, normalise tag raw = .ok n ∧
    canonicalBytesTupV1 [(tag, raw)] = .ok bytes ∧ hexdigest (host.sha256 bytes) = digest

/-- **Cells and digests are equal exactly for equal typed values.** -/
theorem Means.matches_iff (h : Means host tag n cell digest) (h' : Means host tag m cell' digest') :
    (cell.eqv cell' && decide (digest = digest')) = decide (n = m) := by
  obtain ⟨raw, bytes, hraw, hbytes, rfl⟩ := h.digest_eq
  obtain ⟨raw', bytes', hraw', hbytes', rfl⟩ := h'.digest_eq
  rw [← h.cell_eq, ← h'.cell_eq, Bool.eq_iff_iff, Bool.and_eq_true, cellOf_eqv_iff hraw hraw',
    decide_eq_true_eq, decide_eq_true_eq]
  constructor
  · exact fun h => h.1
  · rintro rfl
    rw [canonicalBytes_congr hraw hraw', hbytes'] at hbytes
    cases hbytes
    exact ⟨rfl, rfl⟩

theorem storedTyped_eq_some_iff {value : Datum} {t : Typed} : storedTyped tag value = some t ↔
    ∃ raw, decodedBytes tag value = .ok raw ∧ normalise tag raw = .ok t.2 ∧ t.1 = tag := by
  unfold storedTyped typedOf
  cases decodedBytes tag value with
  | error e => simp [Except.toOption]
  | ok raw =>
    obtain ⟨tag', n⟩ := t
    cases hn : normalise tag raw with
    | error e => simp [Except.toOption, hn]
    | ok n' => simp [Except.toOption, hn, and_comm, eq_comm]

/-- What the canonical value of an object in storage form is. -/
theorem canonicalValue_ok {value : Datum} {p : Rules.Value × String}
    (h : canonicalValue host tag value = .ok p) :
    ∃ n, storedTyped tag value = some (tag, n) ∧ Means host tag n p.1 p.2 := by
  unfold canonicalValue at h
  obtain ⟨raw, hraw, h⟩ := bind_ok_iff.mp h
  obtain ⟨bytes, hbytes, h⟩ := bind_ok_iff.mp h
  obtain ⟨cell, hcell, h⟩ := bind_ok_iff.mp h
  cases h
  obtain ⟨n, hn, hcell⟩ := valAtom_ok_iff.mp hcell
  exact ⟨n, storedTyped_eq_some_iff.mpr ⟨raw, hraw, hn, rfl⟩, hcell, raw, bytes, hn, hbytes, rfl⟩

variable (host) in
/-- An object whose typed value is small has a canonical value. -/
theorem exists_canonicalValue {value : Datum} (h : storedTyped tag value = some (tag, n))
    (hsize : (utf8 (storedText (cellOf n))).length ≤ maxRunBundleBytes) :
    ∃ p, canonicalValue host tag value = .ok p ∧ Means host tag n p.1 p.2 := by
  obtain ⟨raw, hraw, hn, -⟩ := storedTyped_eq_some_iff.mp h
  obtain ⟨bytes, hbytes⟩ := exists_canonicalBytes hn hsize
  refine ⟨(cellOf n, hexdigest (host.sha256 bytes)), ?_, rfl, raw, bytes, hn, hbytes, rfl⟩
  simp only [canonicalValue, hraw, ok_bind, hbytes, valAtom_ok_iff.mpr ⟨n, hn, rfl⟩]

/-- The canonical value of the cell of a typed value is that cell again. -/
theorem canonicalValue_again (h : Means host tag n cell digest) :
    canonicalValue host tag (View.datumOf cell) = .ok (cell, digest) := by
  obtain ⟨raw, bytes, hraw, hbytes, rfl⟩ := h.digest_eq
  obtain ⟨raw', hdecode, hraw'⟩ := storedTyped_cellOf hraw
  rw [h.cell_eq] at hdecode
  simp only [canonicalValue, hdecode, ok_bind, canonicalBytes_congr hraw' hraw, hbytes,
    valAtom_ok_iff.mpr ⟨n, hraw', h.cell_eq⟩]

end

/-! ## Captured values -/

theorem decodedBytes_of_storageToRaw {tag : String} {value raw : Datum}
    (h : storageToRaw tag value = .ok raw) : decodedBytes tag value = .ok raw := by
  unfold storageToRaw at h
  split at h
  next htag =>
    split at h
    next s =>
      split at h
      next => cases h
      next bytes hbytes =>
        split at h
        next => cases h; simp [decodedBytes, htag, hbytes]
        next => cases h
    next => cases h
  next htag =>
    cases h
    unfold decodedBytes
    split
    next => rw [if_neg htag]
    next => rfl

/-- What a captured value is the storage form of. -/
theorem RunValue.stored (v : RunValue) : ∃ raw n,
    storageToRaw v.tag (View.datumOf v.value) = .ok raw ∧ normalise v.tag raw = .ok n ∧
      cellOf n = v.value := by
  have hcanonical := v.canonical
  unfold storedCell? at hcanonical
  split at hcanonical
  next raw hraw =>
    cases hcell : valAtomForClaimArg v.tag raw with
    | error e => simp [hcell, Except.toOption] at hcanonical
    | ok cell =>
      simp only [hcell, Except.toOption, Option.some.injEq] at hcanonical
      obtain ⟨n, hn, hvalue⟩ := valAtom_ok_iff.mp hcell
      exact ⟨raw, n, hraw, hn, hvalue.trans hcanonical⟩
  next => cases hcanonical

/-- **A captured value has a digest**, and cell and digest are those of its typed value. -/
theorem RunValue.exists_digest (host : Host Val) {v : RunValue}
    (hsize : (utf8 (storedText v.value)).length ≤ maxRunBundleBytes) :
    ∃ n digest, storedTyped v.tag (View.datumOf v.value) = some (v.tag, n) ∧
      v.digest host = .ok digest ∧ Means host v.tag n v.value digest := by
  obtain ⟨raw, n, hraw, hn, hcell⟩ := v.stored
  obtain ⟨bytes, hbytes⟩ := exists_canonicalBytes hn (hcell ▸ hsize)
  refine ⟨n, hexdigest (host.sha256 bytes), ?_, ?_, hcell, raw, bytes, hn, hbytes, rfl⟩
  · exact storedTyped_eq_some_iff.mpr ⟨raw, decodedBytes_of_storageToRaw hraw, hn, rfl⟩
  · simp only [RunValue.digest, hraw, hbytes, ofShape, ofStore, ok_bind]

theorem runValue_ok {tag : String} {value : Datum} {v : RunValue} (h : runValue tag value = .ok v) :
    v.tag = tag ∧ View.datumOf v.value = value := by
  unfold runValue at h
  split at h
  next => cases h
  next =>
    split at h
    next => cases h
    next cell hcell =>
      split at h
      next hv => cases h; exact ⟨rfl, hv⟩
      next => cases h

/-- A term that is captured displays the stored value under its type. -/
theorem projectionValue_ok {tag : String} {displayed : Option Val} {v : RunValue}
    (h : projectionValue tag displayed = .ok v) :
    ∃ term, displayed = some (.mapping term) ∧ v.tag = tag ∧
      (publicTermValue term).datum = View.datumOf v.value ∧
      displayedTyped (.mapping term) = storedTyped tag (View.datumOf v.value) := by
  unfold projectionValue at h
  split at h
  next term =>
    refine ⟨term, rfl, ?_⟩
    split at h
    next htag =>
      split at h
      next value _ hkind hvalue =>
        obtain ⟨htag', hdatum⟩ := runValue_ok h
        simp only [publicTermValue, displayedTyped, hkind, hvalue, Option.getD_some, hdatum, htag',
          htag, true_and]
      next => cases h
    next htag =>
      split at h
      next text value _ hkind htext hvalue =>
        split at h
        next heq =>
          obtain ⟨htag', hdatum⟩ := runValue_ok h
          simp only [publicTermValue, displayedTyped, hkind, htext, hvalue, Option.getD_some, hdatum,
            htag', heq, true_and]
        next => cases h
      next => cases h
  next => cases h

/-! ## Expected values -/

theorem Means.stored {host : Host Val} {tag : String} {n : Normal} {cell : Rules.Value}
    {digest : String} (h : Means host tag n cell digest) :
    storedTyped tag (View.datumOf cell) = some (tag, n) := by
  obtain ⟨raw, bytes, hraw, -, -⟩ := h.digest_eq
  obtain ⟨raw', hdecode, hraw'⟩ := storedTyped_cellOf hraw
  rw [h.cell_eq] at hdecode
  exact storedTyped_eq_some_iff.mpr ⟨raw', hdecode, hraw', rfl⟩

theorem ofFault_ok_iff {α : Type} {x : Except Fault α} {a : α} : ofFault x = .ok a ↔ x = .ok a := by
  unfold ofFault
  split <;> simp

theorem ofAddress_ok_iff {α : Type} {x : Except Policy.AddressError α} {a : α} :
    ofAddress x = .ok a ↔ x = .ok a := by
  cases x <;> simp [ofAddress]

theorem ofShape_ok_iff {α : Type} {x : Except ShapeError α} {a : α} :
    ofShape x = .ok a ↔ x = .ok a := by
  cases x <;> simp [ofShape]

theorem orExpectation_ok_iff {α : Type} {message : String → String} {code : String}
    {x : Except StoreErr α} {a : α} : orExpectation message code x = .ok a ↔ x = .ok a := by
  cases x with
  | ok a => simp [orExpectation]
  | error e =>
    simp only [orExpectation, reduceCtorEq, iff_false]
    split <;> simp [expectationError]

section

variable {policyHost : Policy.Host} {entityHost : Entity.Host}
  {space : Policy.SemanticAddressSpace} {index : SchemaIndex} {policy : Policy.CompiledPolicy}
  {s : Policy.QuerySelection × Policy.ResolvedSelection} {raw : FieldValue}
  {typed : String × Rules.Value}

/-- A cell that stands for a value an expectation names: of a reference, or of a scalar. -/
inductive CellFor (entityHost : Entity.Host) (index : SchemaIndex) (valueType : String) :
    FieldValue → Rules.Value → Prop where
  | ref {ref : EntityRef} {identity : List (String × Datum)} {encoded : String}
      (htype : valueType = "entity_ref")
      (hidentity : materializeIdentity entityHost index ref.entityType ref.identity = .ok identity)
      (hencoded : encodeEntityRef entityHost index ⟨ref.entityType, identity, none⟩ = .ok encoded) :
      CellFor entityHost index valueType (.ref ref) (.str encoded)
  | scalar {d : Datum} {cell : Rules.Value}
      (hcell : valAtomForClaimArg valueType (Policy.lowerUuid valueType d) = .ok cell) :
      CellFor entityHost index valueType (.scalar d) cell

theorem scalarCell_ok {domain : String} {info : PredicateInfo} {d : Datum} {cell : Rules.Value}
    (h : scalarCell entityHost domain info d = .ok cell) :
    CellFor entityHost index domain (.scalar d) cell := by
  unfold scalarCell at h
  obtain ⟨normalized, hnormalized, h⟩ := bind_ok_iff.mp h
  obtain ⟨-, h⟩ := bind_unit_ok_iff.mp h
  obtain ⟨-, h⟩ := bind_unit_ok_iff.mp h
  cases h
  exact .scalar hnormalized

/-- The type of what an expectation names is that of the selection. -/
theorem expectedCell_ok (hs : Policy.resolveSelection policyHost space index policy s.1 = .ok s.2)
    (h : expectedCell policyHost entityHost space index s raw = .ok typed) :
    typed.1 = s.2.valueType ∧ CellFor entityHost index typed.1 raw typed.2 := by
  unfold expectedCell at h
  unfold Policy.resolveSelection at hs
  split at h
  next base entityType fieldName hsource =>
    cases raw with
    | ref ref => cases h
    | scalar d =>
      obtain ⟨info, -, h⟩ := bind_ok_iff.mp h
      obtain ⟨-, h⟩ := bind_unit_ok_iff.mp h
      obtain ⟨cell, hcell, h⟩ := bind_ok_iff.mp h
      cases h
      exact ⟨rfl, scalarCell_ok hcell⟩
  next a hsource =>
    obtain ⟨resolved, hresolved, h⟩ := bind_ok_iff.mp h
    have hresolved := ofAddress_ok_iff.mp hresolved
    simp only [hsource] at hs
    obtain ⟨resolved', hresolved', hs⟩ := bind_ok_iff.mp hs
    obtain rfl : resolved = resolved' := by
      simp only [Policy.resolveQueryAddress, hresolved, Except.ok.injEq] at hresolved'
      exact hresolved'
    obtain ⟨domain, hdomain, hs⟩ := bind_ok_iff.mp hs
    obtain ⟨sources, -, hs⟩ := bind_ok_iff.mp hs
    -- an address resolves for the selection as for the expected value, so the two types agree
    have htype : s.2.valueType = domain := by rw [← Except.ok.inj hs]
    rw [htype]
    cases hend : resolved.endpoint with
    | functionValue => simp [hend] at h
    | entityIdentity entityType =>
      simp only [hend] at h hdomain
      cases hdomain
      cases raw with
      | scalar d => cases h
      | ref ref =>
        obtain ⟨hentity, h⟩ := bind_unit_ok_iff.mp h
        have hentity := of_decide_eq_true (require_ok_iff.mp hentity)
        obtain ⟨identity, hidentity, h⟩ := bind_ok_iff.mp h
        obtain ⟨encoded, hencoded, h⟩ := bind_ok_iff.mp h
        cases h
        have hidentity := ofFault_ok_iff.mp hidentity
        have hencoded := ofFault_ok_iff.mp hencoded
        rw [← hentity] at hidentity hencoded
        exact ⟨rfl, .ref rfl hidentity hencoded⟩
    | field entityType fieldName =>
      simp only [hend] at h hdomain
      obtain ⟨info, hinfo, hdomain⟩ := bind_ok_iff.mp hdomain
      cases hdomain
      cases raw with
      | ref ref => cases h
      | scalar d =>
        obtain ⟨info', hinfo', h⟩ := bind_ok_iff.mp h
        obtain ⟨cell, hcell, h⟩ := bind_ok_iff.mp h
        cases h
        have heq : info' = info := by
          rw [ofFault_ok_iff.mp hinfo'] at hinfo
          exact Except.ok.inj hinfo
        rw [heq] at hcell ⊢
        exact ⟨rfl, scalarCell_ok hcell⟩

/-- **What `_normalize_expected_value` returns**: the type of the selection, and the cell and the
digest of the typed value that is named. -/
theorem normalizeExpectedValue_ok {host : Host Val} {found : String × Rules.Value × String}
    (hs : Policy.resolveSelection policyHost space index policy s.1 = .ok s.2)
    (h : normalizeExpectedValue host policyHost entityHost space index s raw = .ok found) :
    found.1 = s.2.valueType ∧ ∃ n, expectedTyped entityHost index s.2 raw = some (found.1, n) ∧
      Means host found.1 n found.2.1 found.2.2 := by
  unfold normalizeExpectedValue at h
  obtain ⟨typed, htyped, h⟩ := bind_ok_iff.mp (orExpectation_ok_iff.mp h)
  obtain ⟨canonical, hcanonical, h⟩ := bind_ok_iff.mp h
  cases h
  obtain ⟨htype, hcell⟩ := expectedCell_ok hs htyped
  obtain ⟨n, hstored, hmeans⟩ := canonicalValue_ok hcanonical
  refine ⟨htype, n, ?_, hmeans⟩
  generalize typed.2 = cell at hcell hstored
  cases hcell with
  | ref hentity hidentity hencoded =>
    obtain ⟨raw', hraw', hn, -⟩ := storedTyped_eq_some_iff.mp hstored
    rw [hentity] at hraw' hn ⊢
    cases hraw'
    obtain ⟨text, htext, rfl⟩ := map_ok_iff.mp hn
    cases requireEntityRef_ok htext |>.1
    simp only [expectedTyped, hidentity, ok_bind, hencoded, Except.toOption, Option.map_some]
  | scalar hatom =>
    obtain ⟨n', hn', rfl⟩ := valAtom_ok_iff.mp hatom
    obtain ⟨raw', hraw', hnormal⟩ := storedTyped_cellOf hn'
    have hsame := storedTyped_eq_some_iff.mpr
      (show _ from ⟨raw', hraw', (show normalise typed.1 raw' = .ok (typed.1, n').2 from hnormal), rfl⟩)
    rw [hstored] at hsame
    cases hsame
    simp only [expectedTyped, typedOf, ← htype, hn', Except.toOption, Option.map_some]

end

end FactGraph.Evaluate
