import FactGraph.View.Cells

/-!
# References spelled by values and by cells

The projector keeps an entity if its reference is `encode_idref_v1` of the type and of the *cells* of
its identity terms; the reference was made of their *values*. Legible cells spell what the values
spell (`spelledByCells_iff`). A list with an illegible cell is not spelled both ways, unless SHA-256
sends two encodings to one digest (`legible_of_spelled`).
-/

namespace FactGraph.View

open Protocol Store Check

/-! ## Canonical bytes -/

/-- `canonical_bytes_idref_v1`. -/
def canonicalBytesIdrefV1 (entityType : String) (fields : List (String × String × Datum)) :
    Except StoreErr (List UInt8) := do
  require (isEntityType entityType)
    (.valueError "entity_type must match [A-Za-z][A-Za-z0-9_.-]{0,127}")
  let typeLength ← u32be (utf8 entityType).length
  let count ← u32be fields.length
  let body ← mapOk idrefFieldBytes fields
  .ok (utf8 "factpy\x00idref_v1\x00" ++ typeLength ++ utf8 entityType ++ count ++ body.flatten)

/-- The text of a digest, as `encode_idref_v1` writes it. -/
def digestText (host : Host) (canonical : List UInt8) : String :=
  b32NopadLower (host.sha256 canonical)

theorem encodeIdrefV1_eq (host : Host) (entityType : String)
    (fields : List (String × String × Datum)) :
    encodeIdrefV1 host entityType fields =
      (canonicalBytesIdrefV1 entityType fields).map fun canonical =>
        s!"idref_v1:{entityType}:{digestText host canonical}" := by
  unfold encodeIdrefV1 canonicalBytesIdrefV1
  cases require (isEntityType entityType) _ with
  | error e => rfl
  | ok u =>
    cases u32be (utf8 entityType).length with
    | error e => rfl
    | ok typeLength =>
      cases u32be fields.length with
      | error e => rfl
      | ok count =>
        simp only [ok_bind]
        cases mapOk idrefFieldBytes fields with
        | error e => rfl
        | ok body => rfl

/-- The bytes of a field: its name, its domain, and its value in a frame. -/
theorem idrefFieldBytes_ok_iff {name domain : String} {v : Datum} {raw : List UInt8} :
    idrefFieldBytes (name, domain, v) = .ok raw ↔
      name ≠ "" ∧ ∃ code payload nameLength length, tagCode? domain = some code ∧
        encodeValueBytes domain v = .ok payload ∧ u32be (utf8 name).length = .ok nameLength ∧
        u32be payload.length = .ok length ∧
        raw = nameLength ++ utf8 name ++ code :: length ++ payload := by
  unfold idrefFieldBytes
  by_cases hname : name = ""
  · simp [hname, require]
  · simp only [require_of_true (show decide (name ≠ "") = true by simpa using hname), ok_bind]
    cases tagCode? domain with
    | none => simp
    | some code =>
      simp only [bind_ok_iff, Option.some.injEq, Except.ok.injEq]
      constructor
      · rintro ⟨payload, hp, nameLength, hn, length, hl, rfl⟩
        exact ⟨hname, code, payload, nameLength, length, rfl, hp, hn, hl, rfl⟩
      · rintro ⟨_, _, payload, nameLength, length, rfl, hp, hn, hl, rfl⟩
        exact ⟨payload, hp, nameLength, hn, length, hl, rfl⟩

/-- A field whose value has the bytes of another is encoded as that one. -/
theorem idrefFieldBytes_congr {name domain : String} {v w : Datum}
    (h : ∀ raw, encodeValueBytes domain v = .ok raw ↔ encodeValueBytes domain w = .ok raw)
    (raw : List UInt8) :
    idrefFieldBytes (name, domain, v) = .ok raw ↔ idrefFieldBytes (name, domain, w) = .ok raw := by
  simp only [idrefFieldBytes_ok_iff, h]

/-- The frame of a field ends where its value does: two encodings of one field that begin two equal
strings are equal, and so are the bytes of the values. -/
theorem idrefFieldBytes_cancel {name domain : String} {v w : Datum} {a b x y : List UInt8}
    (ha : idrefFieldBytes (name, domain, v) = .ok a)
    (hb : idrefFieldBytes (name, domain, w) = .ok b) (h : a ++ x = b ++ y) :
    (∃ raw, encodeValueBytes domain v = .ok raw ∧ encodeValueBytes domain w = .ok raw) ∧ x = y := by
  obtain ⟨_, code, payload, nameLength, length, hcode, hv, hname, hlength, rfl⟩ :=
    idrefFieldBytes_ok_iff.mp ha
  obtain ⟨_, code', payload', nameLength', length', hcode', hw, hname', hlength', rfl⟩ :=
    idrefFieldBytes_ok_iff.mp hb
  obtain rfl : code = code' := Option.some.inj (hcode.symm.trans hcode')
  obtain rfl : nameLength = nameLength' := Except.ok.inj (hname.symm.trans hname')
  simp only [List.append_assoc, List.cons_append] at h
  have htail := List.append_cancel_left (List.append_cancel_left h)
  obtain ⟨hlen, hrest⟩ := List.append_inj (List.cons.inj htail).2
    ((u32be_length hlength).trans (u32be_length hlength').symm)
  subst hlen
  obtain ⟨rfl, hxy⟩ := List.append_inj hrest (u32be_inj hlength hlength')
  exact ⟨⟨payload, hv, hw⟩, hxy⟩

/-! ## Two spellings -/

/-- An identity field, with the term of a claim and the cell of the term. -/
structure Carried where
  name : String
  domain : String
  term : Term
  cell : Rules.Value
  isCell : valAtomForClaimArg term.1 term.2 = .ok cell

namespace Carried

/-- The field, with the value of the term. -/
def value (v : Carried) : String × String × Datum := (v.name, v.domain, v.term.2)

/-- The field, with the cell of the term. -/
def atom (v : Carried) : String × String × Datum := (v.name, v.domain, datumOf v.cell)

/-- The cell stands for the value. -/
def Legible (v : Carried) : Prop := View.Legible v.domain v.term v.cell

end Carried

/-- The reference is the one of the type and of the values. -/
def SpelledByValues (host : Host) (entityType : String) (vs : List Carried) (eRef : String) :
    Prop :=
  encodeIdrefV1 host entityType (vs.map Carried.value) = .ok eRef

/-- The reference is the one of the type and of the cells. -/
def SpelledByCells (host : Host) (entityType : String) (vs : List Carried) (eRef : String) : Prop :=
  encodeIdrefV1 host entityType (vs.map Carried.atom) = .ok eRef

/-- SHA-256 does not send the encodings of the values and of the cells to one digest, unless they
are one. -/
def Separated (host : Host) (entityType : String) (vs : List Carried) : Prop :=
  ∀ x y, canonicalBytesIdrefV1 entityType (vs.map Carried.value) = .ok x →
    canonicalBytesIdrefV1 entityType (vs.map Carried.atom) = .ok y →
    digestText host x = digestText host y → x = y

/-- Lists of fields that are encoded alike, field by field, have the same canonical bytes. -/
theorem canonicalBytesIdrefV1_congr {entityType : String} {vs : List Carried}
    (h : ∀ v ∈ vs, v.Legible) (raw : List UInt8) :
    canonicalBytesIdrefV1 entityType (vs.map Carried.atom) = .ok raw ↔
      canonicalBytesIdrefV1 entityType (vs.map Carried.value) = .ok raw := by
  have hbody : ∀ body, mapOk idrefFieldBytes (vs.map Carried.atom) = .ok body ↔
      mapOk idrefFieldBytes (vs.map Carried.value) = .ok body := by
    intro body
    rw [mapOk_ok_iff, mapOk_ok_iff, List.forall₂_map_left_iff, List.forall₂_map_left_iff]
    have hfield : ∀ v ∈ vs, ∀ bytes, idrefFieldBytes v.atom = .ok bytes ↔
        idrefFieldBytes v.value = .ok bytes := fun v hv =>
      idrefFieldBytes_congr fun raw => (h v hv).encode_iff v.isCell raw
    clear h
    induction vs generalizing body with
    | nil => simp
    | cons v vs ih =>
      cases body with
      | nil => simp
      | cons bytes body =>
        rw [List.forall₂_cons, List.forall₂_cons]
        exact and_congr (hfield v List.mem_cons_self bytes)
          (ih body fun w hw => hfield w (List.mem_cons_of_mem v hw))
  unfold canonicalBytesIdrefV1
  simp only [bind_ok_iff, hbody, List.length_map]

/-- **Legible cells spell what the values spell.** -/
theorem spelledByCells_iff {host : Host} {entityType eRef : String} {vs : List Carried}
    (h : ∀ v ∈ vs, v.Legible) :
    SpelledByCells host entityType vs eRef ↔ SpelledByValues host entityType vs eRef := by
  unfold SpelledByCells SpelledByValues
  simp only [encodeIdrefV1_eq, map_ok_iff, canonicalBytesIdrefV1_congr h]

/-- Equal encodings of the values and of the cells are equal field by field. -/
theorem legible_of_flatten {vs : List Carried} {as bs : List (List UInt8)}
    (ha : mapOk idrefFieldBytes (vs.map Carried.value) = .ok as)
    (hb : mapOk idrefFieldBytes (vs.map Carried.atom) = .ok bs) (h : as.flatten = bs.flatten) :
    ∀ v ∈ vs, v.Legible := by
  rw [mapOk_ok_iff, List.forall₂_map_left_iff] at ha hb
  induction ha generalizing bs with
  | nil => simp
  | cons hv _ ih =>
    cases hb with
    | cons hw hb =>
      obtain ⟨⟨raw, hvalue, hcell⟩, hrest⟩ := idrefFieldBytes_cancel hv hw h
      intro v hmem
      rcases List.mem_cons.mp hmem with rfl | hmem
      · exact legible_of_encode v.isCell hcell hvalue
      · exact ih hb hrest v hmem

/-- **A reference spelled both ways has legible cells.** -/
theorem legible_of_spelled {host : Host} {entityType eRef : String} {vs : List Carried}
    (hsep : Separated host entityType vs) (hcells : SpelledByCells host entityType vs eRef)
    (hvalues : SpelledByValues host entityType vs eRef) : ∀ v ∈ vs, v.Legible := by
  unfold SpelledByCells at hcells
  unfold SpelledByValues at hvalues
  rw [encodeIdrefV1_eq] at hcells hvalues
  obtain ⟨y, hy, hcells⟩ := map_ok_iff.mp hcells
  obtain ⟨x, hx, rfl⟩ := map_ok_iff.mp hvalues
  have htext : digestText host x = digestText host y := by
    have hlist : (toString (digestText host x)).toList = (toString (digestText host y)).toList := by
      simpa using congrArg String.toList hcells.symm
    exact String.toList_inj.mp hlist
  have hxy : x = y := hsep x y hx hy htext
  subst hxy
  unfold canonicalBytesIdrefV1 at hx hy
  obtain ⟨_, hx⟩ := bind_unit_ok_iff.mp hx
  obtain ⟨_, hy⟩ := bind_unit_ok_iff.mp hy
  obtain ⟨typeLength, htype, hx⟩ := bind_ok_iff.mp hx
  obtain ⟨typeLength', htype', hy⟩ := bind_ok_iff.mp hy
  obtain ⟨count, hcount, hx⟩ := bind_ok_iff.mp hx
  obtain ⟨count', hcount', hy⟩ := bind_ok_iff.mp hy
  obtain ⟨as, has, hx⟩ := bind_ok_iff.mp hx
  obtain ⟨bs, hbs, hy⟩ := bind_ok_iff.mp hy
  obtain rfl : typeLength = typeLength' := Except.ok.inj (htype.symm.trans htype')
  rw [List.length_map] at hcount hcount'
  obtain rfl : count = count' := Except.ok.inj (hcount.symm.trans hcount')
  have hflat := (Except.ok.inj hx).trans (Except.ok.inj hy).symm
  exact legible_of_flatten has hbs (List.append_cancel_left hflat)

end FactGraph.View
