import FactGraph.Scenario.Resolve
import FactGraph.Protocol.Canonical

/-!
# Rows and the facts they stand for

The resolver compares Python objects; a world holds typed facts. What the two have to do with each
other: under one domain equal objects are one value (`eq_of_eqv`), a value is read back from the
object it stands for (`fromRaw_toRaw`), and a cell is a given reference before typing exactly if it
is one afterwards (`toRaw_eq_ref_iff`).
-/

namespace FactGraph.Scenario

open Protocol Store Check Entity

/-! ## Equality of objects -/

theorem eqvDatum_leaf {x y : Scalar} :
    eqvDatum (.leaf x) (.leaf y) = true ↔ x.canon = y.canon := by
  rw [eqvDatum]
  exact decide_eq_true_iff

theorem canon_eq_str {x : Scalar} {s : String} : x.canon = (Scalar.str s).canon ↔ x = .str s := by
  cases x with
  | float f =>
    simp only [Scalar.canon]
    split <;> simp
  | _ => simp [Scalar.canon]

@[simp] theorem eqvDatum_text {d : Datum} {s : String} :
    eqvDatum d (text s) = true ↔ d = text s := by
  cases d with
  | leaf x =>
    rw [text, eqvDatum_leaf, canon_eq_str]
    simp
  | arr xs => simp [eqvDatum, text]
  | obj fs => simp [eqvDatum, text]

theorem eqvDatum_comm_leaf {d : Datum} {x : Scalar} :
    eqvDatum (.leaf x) d = true ↔ eqvDatum d (.leaf x) = true := by
  cases d with
  | leaf y => rw [eqvDatum_leaf, eqvDatum_leaf, eq_comm]
  | arr xs => simp [eqvDatum]
  | obj fs => simp [eqvDatum]

/-! ## Cells -/

/-- What each tag takes, and the storage it makes of it. -/
inductive Cell : String → Datum → Rules.Value → Prop where
  | text {tag : String} (s : String) (htag : tag = "string" ∨ tag = "uuid" ∨ tag = "entity_ref") :
      Cell tag (text s) (.str s)
  | int {tag : String} (i : Int) (htag : tag = "int" ∨ tag = "time") : Cell tag (.leaf (.int i)) (.int i)
  | bool {tag : String} (b : Bool) (htag : tag = "bool") : Cell tag (.leaf (.bool b)) (.bool b)
  | bytes {tag : String} (raw : List UInt8) (htag : tag = "bytes") :
      Cell tag (.leaf (.bytes raw)) (.str (urlsafeBase64 raw))
  | float64 {tag : String} {d : Datum} {bits : UInt64} (h : float64Bits d = .ok bits)
      (htag : tag = "float64") : Cell tag d (.str (float64Hex bits))

theorem cell_of_valAtom {tag : String} {d : Datum} {atom : Rules.Value}
    (h : valAtomForClaimArg tag d = .ok atom) : Cell tag d atom := by
  unfold valAtomForClaimArg at h
  split at h
  · obtain ⟨s, hs, rfl⟩ := map_ok_iff.mp h
    rw [(requireEntityRef_ok hs).1]
    exact .text s (.inr (.inr rfl))
  · obtain ⟨s, hs, rfl⟩ := map_ok_iff.mp h
    rw [requireString_ok hs]
    exact .text s (.inl rfl)
  · obtain ⟨i, hi, rfl⟩ := map_ok_iff.mp h
    rw [requireInt64_ok hi]
    exact .int i (.inl rfl)
  · obtain ⟨bits, hbits, rfl⟩ := map_ok_iff.mp h
    exact .float64 hbits rfl
  · obtain ⟨b, hb, rfl⟩ := map_ok_iff.mp h
    rw [requireBool_ok hb]
    exact .bool b rfl
  · obtain ⟨raw, hraw, rfl⟩ := map_ok_iff.mp h
    rw [requireBytes_ok hraw]
    exact .bytes raw rfl
  · obtain ⟨i, hi, rfl⟩ := map_ok_iff.mp h
    rw [requireInt64_ok hi]
    exact .int i (.inr rfl)
  · split at h
    next s hs =>
      cases h
      rw [(requireUuid_ok hs).1]
      exact .text s (.inr (.inl rfl))
    next => cases h
  · cases h

namespace ScenarioValue

theorem cell_toRaw (v : ScenarioValue) : Cell v.tag v.toRaw v.value :=
  cell_of_valAtom v.valAtom_toRaw

/-- Apart from bytes, the storage is the object itself. -/
theorem toRaw_of_ne_bytes {v : ScenarioValue} (h : v.tag ≠ "bytes") :
    v.toRaw = View.datumOf v.value := by
  unfold toRaw rawValue
  rw [if_neg h]
  rfl

theorem exists_toRaw_leaf (v : ScenarioValue) : ∃ x, v.toRaw = .leaf x := by
  have hcell := v.cell_toRaw
  by_cases hfloat : v.tag = "float64"
  · have hne : v.tag ≠ "bytes" := by rw [hfloat]; decide
    rw [toRaw_of_ne_bytes hne]
    cases v.value <;> exact ⟨_, rfl⟩
  · generalize v.toRaw = d, v.value = atom at hcell
    cases hcell with
    | text s htag => exact ⟨_, rfl⟩
    | int i htag => exact ⟨_, rfl⟩
    | bool b htag => exact ⟨_, rfl⟩
    | bytes raw htag => exact ⟨_, rfl⟩
    | float64 h htag => exact absurd htag hfloat

theorem exists_value_text {v : ScenarioValue} (h : v.tag = "float64") : ∃ s, v.value = .str s := by
  have hcell := v.cell_toRaw
  generalize v.toRaw = d, v.value = atom at hcell
  cases hcell with
  | text s htag => exact ⟨_, rfl⟩
  | int i htag => rw [h] at htag; simp at htag
  | bool b htag => rw [h] at htag; simp at htag
  | bytes raw htag => exact ⟨_, rfl⟩
  | float64 h htag => exact ⟨_, rfl⟩

/-- Cells of one tag, not a float, whose objects are equal. -/
theorem eq_of_cells {tag : String} {d d' : Datum} {atom atom' : Rules.Value}
    (hfloat : tag ≠ "float64") (h : Cell tag d atom) (h' : Cell tag d' atom')
    (heqv : eqvDatum d d' = true) : d = d' := by
  cases h' with
  | text s htag => exact eqvDatum_text.mp heqv
  | int i htag =>
    cases h with
    | text s htag' => rcases htag with rfl | rfl <;> simp at htag'
    | int j _ =>
      have hij := eqvDatum_leaf.mp heqv
      simp only [Scalar.canon, Sum.inr.injEq, Rat.intCast_inj] at hij
      rw [hij]
    | bool b htag' => rw [htag'] at htag; simp at htag
    | bytes raw htag' => rw [htag'] at htag; simp at htag
    | float64 h htag' => exact absurd htag' hfloat
  | bool b htag =>
    cases h with
    | text s htag' => rw [htag] at htag'; simp at htag'
    | int j htag' => rw [htag] at htag'; simp at htag'
    | bool b' _ =>
      have hbb := eqvDatum_leaf.mp heqv
      cases b <;> cases b' <;> simp [Scalar.canon] at hbb ⊢
    | bytes raw htag' => rw [htag] at htag'; simp at htag'
    | float64 h htag' => exact absurd htag' hfloat
  | bytes raw htag =>
    cases h with
    | text s htag' => rw [htag] at htag'; simp at htag'
    | int j htag' => rw [htag] at htag'; simp at htag'
    | bool b' htag' => rw [htag] at htag'; simp at htag'
    | bytes raw' _ =>
      have hrr := eqvDatum_leaf.mp heqv
      simp only [Scalar.canon, Sum.inl.injEq, Scalar.bytes.injEq] at hrr
      rw [hrr]
    | float64 h htag' => exact absurd htag' hfloat
  | float64 h htag => exact absurd htag hfloat

/-- A value is read back from the object it stands for. -/
theorem fromRaw_toRaw (v : ScenarioValue) : fromRaw v.tag v.toRaw = .ok v := by
  have hknown : (tagCode? v.tag).isSome = true := by
    have hcell := v.cell_toRaw
    generalize v.tag = tag, v.toRaw = d, v.value = atom at hcell
    cases hcell with
    | text s htag => rcases htag with rfl | rfl | rfl <;> rfl
    | int i htag => rcases htag with rfl | rfl <;> rfl
    | bool b htag => subst htag; rfl
    | bytes raw htag => subst htag; rfl
    | float64 h htag => subst htag; rfl
  unfold fromRaw
  rw [if_pos hknown, v.valAtom_toRaw]
  exact dif_pos v.canonical

/-- **Equal objects are one value**, under one domain. -/
theorem eq_of_eqv {d : Datum} {v w : ScenarioValue} (hd : fromRaw w.tag d = .ok v)
    (heqv : eqvDatum d w.toRaw = true) : v = w := by
  obtain ⟨hvtag, hatom⟩ := fromRaw_ok hd
  have hleaf : d = w.toRaw := by
    by_cases hfloat : w.tag = "float64"
    · -- the object of a float is its hexadecimal text, and only that text equals it
      have hstored : w.toRaw = View.datumOf w.value :=
        toRaw_of_ne_bytes (by rw [hfloat]; decide)
      obtain ⟨s, hs⟩ := exists_value_text hfloat
      rw [hs] at hstored
      rw [hstored] at heqv ⊢
      exact eqvDatum_text.mp heqv
    · exact eq_of_cells hfloat (cell_of_valAtom hatom) w.cell_toRaw heqv
  rw [hleaf, w.fromRaw_toRaw, Except.ok.injEq] at hd
  exact hd.symm

theorem eqv_toRaw_self (v : ScenarioValue) : eqvDatum v.toRaw v.toRaw = true := by
  obtain ⟨x, hx⟩ := v.exists_toRaw_leaf
  rw [hx, eqvDatum_leaf]

theorem eqv_comm {v : ScenarioValue} {d : Datum} :
    eqvDatum v.toRaw d = true ↔ eqvDatum d v.toRaw = true := by
  obtain ⟨x, hx⟩ := v.exists_toRaw_leaf
  rw [hx]
  exact eqvDatum_comm_leaf

/-- Values of one tag that equal one object. -/
theorem eq_of_eqv_both {d : Datum} {v w : ScenarioValue} (htag : v.tag = w.tag)
    (hv : eqvDatum d v.toRaw = true) (hw : eqvDatum d w.toRaw = true) : v = w := by
  have hboth : eqvDatum v.toRaw w.toRaw = true := by
    obtain ⟨x, hx⟩ := v.exists_toRaw_leaf
    obtain ⟨y, hy⟩ := w.exists_toRaw_leaf
    rw [hx] at hv ⊢
    rw [hy] at hw ⊢
    cases d with
    | leaf z => rw [eqvDatum_leaf] at hv hw ⊢; exact hv.symm.trans hw
    | arr xs => simp [eqvDatum] at hv
    | obj fs => simp [eqvDatum] at hv
  exact eq_of_eqv (htag ▸ v.fromRaw_toRaw) hboth

/-- A cell is a reference before it is typed exactly if it is one afterwards. -/
theorem toRaw_eq_ref_iff {tag e : String} {d : Datum} {v : ScenarioValue}
    (he : startsWith entityRefPrefix e = true) (h : fromRaw tag d = .ok v) :
    v.toRaw = text e ↔ d = text e := by
  obtain ⟨rfl, hatom⟩ := fromRaw_ok h
  have hcell := cell_of_valAtom hatom
  have hraw := v.valAtom_toRaw
  have hcell' := v.cell_toRaw
  generalize v.toRaw = d', v.value = atom at hcell hcell' hraw hatom
  generalize v.tag = tag at hcell hcell' hraw hatom
  cases hcell with
  | text s htag =>
    cases hcell' with
    | text s' _ => rfl
    | bytes raw htag' => rw [htag'] at htag; simp at htag
    | float64 h htag' => rw [htag'] at htag; simp at htag
  | int i htag =>
    cases hcell' with
    | int j _ => simp [text]
  | bool b htag =>
    cases hcell' with
    | bool b' _ => simp [text]
  | bytes raw htag =>
    generalize urlsafeBase64 raw = s at hcell' hraw hatom
    cases hcell' with
    | text s' htag' => rw [htag] at htag'; simp at htag'
    | bytes raw' htag' => simp [text]
    | float64 h htag' => rw [htag] at htag'; simp at htag'
  | float64 h htag =>
    -- no reference is the hexadecimal text of a float
    have hnot : ∀ bits, float64Bits (text e) ≠ .ok bits := by
      intro bits hbits
      have hparse : parseFloat64Hex? e = none := by
        unfold parseFloat64Hex?
        split
        next digits hdigits =>
          unfold startsWith at he
          rw [hdigits] at he
          simp [entityRefPrefix] at he
        next => rfl
      unfold float64Bits text at hbits
      simp only [hparse] at hbits
      cases hbits
    subst htag
    constructor
    · rintro rfl
      unfold valAtomForClaimArg at hraw
      obtain ⟨bits, hbits, _⟩ := map_ok_iff.mp hraw
      exact absurd hbits (hnot bits)
    · rintro rfl
      exact absurd h (hnot _)

end ScenarioValue

end FactGraph.Scenario
