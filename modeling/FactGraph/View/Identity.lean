import FactGraph.Protocol.Normal
import FactGraph.View.References

/-!
# What canonical bytes identify

The bytes a reference is the digest of (`core/protocol/idref_v1.py`) spell the entity type, the names
and domains of the identity fields and the normal forms of their values; those of a list of terms
(`core/protocol/tup_v1.py`) the tags and the normal forms. Every part is framed by its length, so a
text cannot run into its neighbour.
-/

namespace FactGraph.View

open Protocol Store Check

/-- An identity field with the normal form of its value. -/
def normaliseField (field : String × String × Datum) :
    Except StoreErr (String × String × Normal) :=
  (normalise field.2.1 field.2.2).map fun n => (field.1, field.2.1, n)

/-- A text framed by its length ends where the text does. -/
theorem framedText_cancel {s t : String} {a b x y : List UInt8}
    (ha : u32be (utf8 s).length = .ok a) (hb : u32be (utf8 t).length = .ok b)
    (h : a ++ (utf8 s ++ x) = b ++ (utf8 t ++ y)) : s = t ∧ x = y := by
  rcases List.append_inj h ((u32be_length ha).trans (u32be_length hb).symm) with ⟨rfl, hrest⟩
  rcases List.append_inj hrest (u32be_inj ha hb) with ⟨htext, hxy⟩
  exact ⟨utf8_injective htext, hxy⟩

/-- The frame of a field spells its name, its domain and the normal form of its value. -/
theorem idrefField_cancel {f g : String × String × Datum} {a b x y : List UInt8}
    (ha : idrefFieldBytes f = .ok a) (hb : idrefFieldBytes g = .ok b) (h : a ++ x = b ++ y) :
    (∃ n, normaliseField f = .ok n ∧ normaliseField g = .ok n) ∧ x = y := by
  rcases f with ⟨name, domain, v⟩
  rcases g with ⟨name', domain', w⟩
  rcases idrefFieldBytes_ok_iff.mp ha with
    ⟨_, code, payload, nameLength, length, hcode, hv, hname, hlength, rfl⟩
  rcases idrefFieldBytes_ok_iff.mp hb with
    ⟨_, code', payload', nameLength', length', hcode', hw, hname', hlength', rfl⟩
  simp only [List.append_assoc, List.cons_append] at h
  rcases framedText_cancel hname hname' h with ⟨rfl, htail⟩
  rcases List.cons.inj htail with ⟨hcodes, hframe⟩
  have hdomain : domain = domain' := tagCode?_inj hcode (hcodes ▸ hcode')
  subst hdomain
  rcases List.append_inj hframe ((u32be_length hlength).trans (u32be_length hlength').symm) with
    ⟨rfl, hvalue⟩
  rcases List.append_inj hvalue (u32be_inj hlength hlength') with ⟨rfl, hxy⟩
  rcases normalise_of_encode hv hw with ⟨n, hn, hn'⟩
  refine ⟨⟨(name, domain, n), ?_, ?_⟩, hxy⟩
  · unfold normaliseField
    rw [hn]
    rfl
  · unfold normaliseField
    rw [hn']
    rfl

theorem idrefFields_normalised {fs gs : List (String × String × Datum)} {as bs : List (List UInt8)}
    (hlen : fs.length = gs.length) (ha : mapOk idrefFieldBytes fs = .ok as)
    (hb : mapOk idrefFieldBytes gs = .ok bs) (h : as.flatten = bs.flatten) :
    ∃ ns, mapOk normaliseField fs = .ok ns ∧ mapOk normaliseField gs = .ok ns := by
  rw [mapOk_ok_iff] at ha hb
  induction ha generalizing gs bs with
  | nil =>
    rw [List.length_eq_zero_iff.mp hlen.symm]
    exact ⟨[], rfl, rfl⟩
  | cons hf _ ih =>
    cases hb with
    | nil => cases hlen
    | cons hg hb =>
      rw [List.flatten_cons, List.flatten_cons] at h
      rcases idrefField_cancel hf hg h with ⟨⟨n, hn, hn'⟩, hrest⟩
      rcases ih (Nat.succ.inj hlen) hb hrest with ⟨ns, hns, hns'⟩
      refine ⟨n :: ns, ?_, ?_⟩
      · unfold mapOk
        rw [hn, ok_bind, hns]
        rfl
      · unfold mapOk
        rw [hn', ok_bind, hns']
        rfl

/-- **Identity values with one encoding are those of one entity type, under the same names and
domains and with the same normal forms, in the same order.** -/
theorem canonicalBytesIdrefV1_normalised {entityType entityType' : String}
    {fs gs : List (String × String × Datum)} {raw : List UInt8}
    (hf : canonicalBytesIdrefV1 entityType fs = .ok raw)
    (hg : canonicalBytesIdrefV1 entityType' gs = .ok raw) :
    entityType = entityType' ∧
      ∃ ns, mapOk normaliseField fs = .ok ns ∧ mapOk normaliseField gs = .ok ns := by
  unfold canonicalBytesIdrefV1 at hf hg
  rcases bind_unit_ok_iff.mp hf with ⟨_, hf⟩
  rcases bind_ok_iff.mp hf with ⟨typeLength, htype, hf⟩
  rcases bind_ok_iff.mp hf with ⟨count, hcount, hf⟩
  rcases bind_ok_iff.mp hf with ⟨body, hbody, hf⟩
  rcases bind_unit_ok_iff.mp hg with ⟨_, hg⟩
  rcases bind_ok_iff.mp hg with ⟨typeLength', htype', hg⟩
  rcases bind_ok_iff.mp hg with ⟨count', hcount', hg⟩
  rcases bind_ok_iff.mp hg with ⟨body', hbody', hg⟩
  have h := (Except.ok.inj hf).trans (Except.ok.inj hg).symm
  simp only [List.append_assoc] at h
  rcases framedText_cancel htype htype' (List.append_cancel_left h) with ⟨rfl, hrest⟩
  rcases List.append_inj hrest ((u32be_length hcount).trans (u32be_length hcount').symm) with
    ⟨rfl, hflat⟩
  exact ⟨rfl, idrefFields_normalised (u32be_inj hcount hcount') hbody hbody' hflat⟩

/-- **Both canonical encodings are injective on normalised values.** -/
theorem canonical_bytes_injective :
    (∀ (ts us : List Term) (raw : List UInt8), canonicalBytesTupV1 ts = .ok raw →
      canonicalBytesTupV1 us = .ok raw →
        ∃ ns, mapOk normaliseTerm ts = .ok ns ∧ mapOk normaliseTerm us = .ok ns) ∧
    ∀ (entityType entityType' : String) (fs gs : List (String × String × Datum))
      (raw : List UInt8), canonicalBytesIdrefV1 entityType fs = .ok raw →
        canonicalBytesIdrefV1 entityType' gs = .ok raw →
          entityType = entityType' ∧
            ∃ ns, mapOk normaliseField fs = .ok ns ∧ mapOk normaliseField gs = .ok ns :=
  ⟨fun _ _ _ => canonicalBytesTupV1_normalised, fun _ _ _ _ _ => canonicalBytesIdrefV1_normalised⟩

/-- A float and its hexadecimal form, and both zeros, have one encoding and one normal form. -/
theorem negative_zero_injective :
    mapOk normaliseTerm [("float64", .leaf (.float ⟨0x8000000000000000⟩))] =
      mapOk normaliseTerm [("float64", .leaf (.str "0x0000000000000000"))] := by
  have hcode : canonicalBytesTupV1 [("float64", .leaf (.float ⟨0x8000000000000000⟩))] =
      canonicalBytesTupV1 [("float64", .leaf (.str "0x0000000000000000"))] := by rfl
  have hok : ∃ raw, canonicalBytesTupV1 [("float64", .leaf (.str "0x0000000000000000"))] =
      .ok raw := ⟨_, rfl⟩
  rcases hok with ⟨raw, hraw⟩
  rcases canonical_bytes_injective.1 _ _ raw (hcode.trans hraw) hraw with ⟨ns, hns, hns'⟩
  exact hns.trans hns'.symm

end FactGraph.View
