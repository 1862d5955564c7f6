import FactGraph.Souffle.Meaning
import FactGraph.Souffle.Names

/-!
# The view program and the projector

The program derives the text rows of the claims that the policies choose (`viewProgram_refines`), and
these are the rows of the projection, except for an existence predicate: there the projector reads
identity bundles, while an export keeps to the claims of the ledger.

It takes a predicate whose engine name no other predicate has, and active claims that fit its
declaration: as many terms as `arg_specs` has value columns, and dimension cells that are equal when
their texts are. Nothing of that is checked when a claim is appended, and without each of them the two
disagree (`viewProgram_disagrees`).

What counts is the text (`textModel`), where two relations of one name are one relation. The names of
the generator are apart but for one case: the witness view of a predicate is named by a suffix that
another predicate's engine name may end with.
-/

namespace FactGraph.Souffle

open Check Store View Latest
open Protocol hiding Term

/-! ## Cells and texts -/

/-- The argument cells of a claim, by position. -/
def cells (c : Claim) : List Rules.Value := (argsOf c).map (·.valAtom)

/-- The dimension cells of a claim, as Python compares them. -/
def dimCells (s : ViewSpec) (c : Claim) : List Rules.Value :=
  s.dims.map fun j => ((cells c).getD j .none).canon

/-- The texts of the dimension cells. -/
def dimTexts (s : ViewSpec) (c : Claim) : List String := s.dims.map fun j => (texts c).getD j ""

/-- The active claims of a predicate fit its declaration. -/
structure ClaimsFit (l : Ledger) (s : ViewSpec) : Prop where
  arity : ∀ c ∈ activeOf l s.predId, c.restTerms.length = s.values
  dims : s.multi = false → ∀ c ∈ activeOf l s.predId, ∀ d ∈ activeOf l s.predId,
    c.eRef = d.eRef → (dimCells s c = dimCells s d ↔ dimTexts s c = dimTexts s d)

/-- The relation holds the text rows of the facts. -/
def HoldsTexts (relation : List Cell → Prop) (facts : List Fact) : Prop :=
  ∀ t, relation t ↔ ∃ fact ∈ facts, ∃ row, mapOk atomToStr fact = .ok row ∧ t = row.map .symbol

variable {l : Ledger} {host : Host} {rows : FactRows}

/-- An exported claim has an argument for every term. -/
theorem argsOf_of_exported (hrows : buildFactRows host l = .ok rows) {c : Claim}
    (hc : c ∈ l.indexes.claims) : ∃ args, claimArgsFromRestTerms c.restTerms = .ok args ∧
      argsOf c = Indexes.argRows c.asrtId args := by
  obtain ⟨claim, _, _, hclaim, _, _, _⟩ := buildFactRows_ok hrows
  obtain ⟨row, _, hrow⟩ := image_of_mapOk hclaim hc
  unfold claimRow at hrow
  obtain ⟨raw, hraw, _⟩ := bind_ok_iff.mp hrow
  obtain ⟨args, hargs⟩ := claimArgs_of_canonical hraw
  refine ⟨args, hargs, ?_⟩
  unfold argsOf
  rw [hargs]

theorem claimArgsFrom_length {terms : List Protocol.Term} {start : Nat} {rows : List ArgRow}
    (h : claimArgsFrom start terms = .ok rows) : rows.length = terms.length := by
  induction terms generalizing start rows with
  | nil =>
    cases h
    rfl
  | cons term terms ih =>
    obtain ⟨tag, value⟩ := term
    unfold claimArgsFrom at h
    obtain ⟨atom, _, h⟩ := bind_ok_iff.mp h
    obtain ⟨more, hmore, h⟩ := bind_ok_iff.mp h
    cases h
    rw [List.length_cons, List.length_cons, ih hmore]

theorem length_argsOf (hrows : buildFactRows host l = .ok rows) {c : Claim}
    (hc : c ∈ l.indexes.claims) : (argsOf c).length = c.restTerms.length := by
  obtain ⟨args, hargs, heq⟩ := argsOf_of_exported hrows hc
  rw [heq]
  unfold Indexes.argRows
  rw [List.length_map, claimArgsFrom_length hargs]

/-- **The row of an exported claim**: its entity and its cells. -/
theorem buildArgs_of_exported (hl : l.Sound) (hrows : buildFactRows host l = .ok rows) {c : Claim}
    (hc : c ∈ l.indexes.claims) :
    buildArgsForClaim (reads l) c = .ok (.str c.eRef :: cells c) := by
  have hread : (reads l).findClaimArgs c.asrtId = .ok (argsOf c) :=
    congrArg Except.ok (Ledger.Sound.findClaimArgs_of_mem hl hc)
  have hlen := length_argsOf hrows hc
  unfold buildArgsForClaim
  rw [hread, ok_bind]
  by_cases hempty : (argsOf c).isEmpty = true
  · have hnil : argsOf c = [] := List.isEmpty_iff.mp hempty
    have hterms : c.restTerms.isEmpty = true := by
      rw [List.isEmpty_iff, ← List.length_eq_zero_iff, ← hlen, hnil]
      rfl
    rw [if_pos hempty, require_of_true hterms]
    simp [cells, hnil]
  · rw [if_neg hempty, sortArgs_argsOf]
    simp only [map_idx_argsOf, hlen, decide_true, require, if_true, ok_bind]
    rfl

/-- The texts of the row are the texts of the cells. -/
theorem texts_of_exported (hl : l.Sound) (hrows : buildFactRows host l = .ok rows) {c : Claim}
    (hc : c ∈ l.indexes.claims) :
    mapOk atomToStr (.str c.eRef :: cells c) = .ok (c.eRef :: texts c) := by
  obtain ⟨_, claimArg, _, _, harg, _, _⟩ := buildFactRows_ok hrows
  rw [hl.args] at harg
  rw [mapOk_ok_iff]
  refine .cons rfl ?_
  unfold cells texts
  rw [List.forall₂_map_left_iff, List.forall₂_map_right_iff, List.forall₂_same]
  intro row hrow
  obtain ⟨text, _, htext⟩ := image_of_mapOk harg (List.mem_flatMap.mpr ⟨c, hc, hrow⟩)
  unfold claimArgRow at htext
  obtain ⟨value, hvalue, _⟩ := bind_ok_iff.mp htext
  rw [hvalue, atomToStr_ok hvalue]

/-! ## Group keys -/

/-- Indexes the generator takes are taken by the policies. -/
theorem readGroupKeyIndexes_of_generator {argCount : Nat} {predId : String}
    {indexes : List (Option Int)} {pos : Nat} {last : Int} {out : List Nat}
    (h : readGroupIndexes argCount predId pos last indexes = .ok out) :
    readGroupKeyIndexes argCount last indexes = .ok out := by
  induction indexes generalizing pos last out with
  | nil =>
    cases h
    rfl
  | cons idx indexes ih =>
    cases idx with
    | none => cases h
    | some idx =>
      unfold readGroupIndexes at h
      obtain ⟨hrange, h⟩ := bind_unit_ok_iff.mp h
      obtain ⟨hlast, h⟩ := bind_unit_ok_iff.mp h
      obtain ⟨more, hmore, h⟩ := bind_ok_iff.mp h
      cases h
      unfold readGroupKeyIndexes
      rw [require_of_true (require_ok_iff.mp hrange), ok_bind,
        require_of_true (require_ok_iff.mp hlast), ok_bind, ih hmore]
      rfl

/-- What the generator has checked of a predicate. -/
structure SpecOf (pred : PredObject) (s : ViewSpec) : Prop where
  predId : pred.predId = some s.predId
  nonempty : s.predId ≠ ""
  cardinality : pred.cardinality = some (if s.multi then "multi" else "single")
  engine : s.engine = normalizePredId s.predId
  indexes : ∃ raw out, pred.groupKeyIndexes = some raw ∧
    readGroupKeyIndexes (s.values + 1) (-1) raw = .ok out ∧
    s.dims = (out.filter (0 < ·)).map (· - 1) ∧ ∀ i ∈ out, i < s.values + 1

theorem readGroupKeyIndexes_lt {argCount : Nat} {last : Int} {indexes : List (Option Int)}
    {out : List Nat} (h : readGroupKeyIndexes argCount last indexes = .ok out) :
    ∀ i ∈ out, i < argCount := by
  induction indexes generalizing last out with
  | nil =>
    cases h
    simp
  | cons idx indexes ih =>
    cases idx with
    | none => cases h
    | some idx =>
      unfold readGroupKeyIndexes at h
      obtain ⟨hrange, h⟩ := bind_unit_ok_iff.mp h
      obtain ⟨_, h⟩ := bind_unit_ok_iff.mp h
      obtain ⟨more, hmore, h⟩ := bind_ok_iff.mp h
      cases h
      have hlt := of_decide_eq_true (require_ok_iff.mp hrange)
      intro i hi
      rcases List.mem_cons.mp hi with rfl | hi
      · omega
      · exact ih hmore i hi

theorem specOf_viewSpec {pred : PredObject} {s : ViewSpec} (h : viewSpec (some pred) = .ok s) :
    SpecOf pred s := by
  unfold viewSpec at h
  simp only at h
  obtain ⟨hid, h⟩ := bind_unit_ok_iff.mp h
  obtain ⟨hcard, h⟩ := bind_unit_ok_iff.mp h
  obtain ⟨hcount, h⟩ := bind_unit_ok_iff.mp h
  obtain ⟨out, hout, h⟩ := bind_ok_iff.mp h
  have hid := of_decide_eq_true (require_ok_iff.mp hid)
  have hcard := of_decide_eq_true (require_ok_iff.mp hcard)
  have hcount := of_decide_eq_true (require_ok_iff.mp hcount)
  cases h
  have hargs : pred.argSpecs.getD 0 - 1 + 1 = pred.argSpecs.getD 0 := by omega
  unfold normalizeGroupKeyIndexes at hout
  cases hraw : pred.groupKeyIndexes with
  | none => simp [hraw] at hout
  | some raw =>
    rw [hraw] at hout
    obtain ⟨indexes, hindexes, hout⟩ := bind_ok_iff.mp hout
    obtain ⟨_, hout⟩ := bind_unit_ok_iff.mp hout
    cases hout
    have hread := readGroupKeyIndexes_of_generator hindexes
    refine ⟨?_, hid, ?_, rfl, raw, _, hraw, ?_, rfl, ?_⟩
    · cases hp : pred.predId with
      | none => simp [hp] at hid
      | some p => rfl
    · rcases hcard with hsingle | hmulti
      · simp [hsingle]
      · simp [hmulti]
    · simpa only [hargs] using hread
    · simpa only [hargs] using readGroupKeyIndexes_lt hread

/-- **The group key of a claim that fits.** -/
theorem groupKey_of_fits (hl : l.Sound) (hrows : buildFactRows host l = .ok rows)
    {pred : PredObject} {s : ViewSpec} (hs : SpecOf pred s) {c : Claim}
    (hc : c ∈ l.indexes.claims) (harity : c.restTerms.length = s.values) :
    groupKeyForClaim (reads l) pred.schemaPred c = .ok (c.predId, c.eRef, dimCells s c) := by
  have hread : (reads l).findClaimArgs c.asrtId = .ok (argsOf c) :=
    congrArg Except.ok (Ledger.Sound.findClaimArgs_of_mem hl hc)
  have hlen := length_argsOf hrows hc
  have hatoms : valAtomsForClaim (reads l) c = .ok (cells c) := by
    unfold valAtomsForClaim
    rw [hread, ok_bind]
    by_cases hempty : (argsOf c).isEmpty = true
    · obtain ⟨args, hargs, heq⟩ := argsOf_of_exported hrows hc
      rw [if_pos hempty, hargs]
      have hnil : args = [] := by
        rw [heq] at hempty
        simpa [Indexes.argRows] using hempty
      simp [cells, heq, hnil, Indexes.argRows]
    · rw [if_neg hempty, sortArgs_argsOf]
      simp only [map_idx_argsOf, hlen, decide_true, require, if_true, ok_bind]
      rfl
  obtain ⟨raw, out, hraw, hout, hdims, _⟩ := hs.indexes
  have hindexes : pred.schemaPred.groupKeyIndexes = some raw := hraw
  have hcount : (Rules.Value.str c.eRef :: cells c).length = s.values + 1 := by
    simp [cells, hlen, harity]
  unfold groupKeyForClaim
  rw [hatoms]
  simp only [ok_bind, hindexes]
  rw [hcount, hout]
  simp only [ok_bind, Except.ok.injEq, Prod.mk.injEq, true_and]
  unfold dimCells
  rw [hdims, List.map_map]
  have hfilter : out.filter (· ≠ 0) = out.filter (0 < ·) := by
    apply List.filter_congr
    intro i _
    rw [decide_eq_decide]
    omega
  rw [hfilter]
  apply List.map_congr_left
  intro i hi
  have hpos : 0 < i := by simpa using (List.mem_filter.mp hi).2
  obtain ⟨j, rfl⟩ : ∃ j, i = j + 1 := ⟨i - 1, by omega⟩
  simp

/-! ## The chosen claims -/

section Predicate

variable {pred : PredObject} {s : ViewSpec}

theorem SpecOf.dims_lt (hs : SpecOf pred s) : ∀ j ∈ s.dims, j < s.values := by
  obtain ⟨_, out, _, _, hdims, hlt⟩ := hs.indexes
  intro j hj
  rw [hdims] at hj
  obtain ⟨i, hi, rfl⟩ := List.mem_map.mp hj
  have hmem := List.mem_filter.mp hi
  have hpos : 0 < i := by simpa using hmem.2
  have hbound := hlt i hmem.1
  omega

/-- Every active claim that fits is a candidate. -/
theorem candidates_of_fits (hrows : buildFactRows host l = .ok rows) (hs : SpecOf pred s)
    (hfit : ClaimsFit l s) : candidates l s = activeOf l s.predId := by
  apply List.filter_eq_self.mpr
  intro c hc
  rw [decide_eq_true_eq]
  intro j hj
  rw [length_argsOf hrows (mem_activeOf.mp hc).1, hfit.arity c hc]
  exact hs.dims_lt j hj

/-- **The claims the view program shows are the ones the policies choose.** -/
theorem selectActive_of_fits (hl : l.Sound) (hrows : buildFactRows host l = .ok rows)
    (hs : SpecOf pred s) (hfit : ClaimsFit l s) :
    selectActive (reads l) pred.schemaPred s.predId = .ok (shownClaims l s) := by
  have hactive := activeClaims_of_sound hl s.predId
  have hseq := sequenced_activeOf hl s.predId
  have hcard : pred.schemaPred.cardinality = if s.multi then "multi" else "single" := by
    show pred.cardinality.getD "single" = _
    rw [hs.cardinality]
    rfl
  unfold shownClaims
  cases hm : s.multi with
  | true =>
    unfold selectActive
    rw [hactive, ok_bind, hcard, hm, if_neg (by decide)]
    rfl
  | false =>
    have hsingle : pred.schemaPred.cardinality = "single" := by
      rw [hcard, hm]
      rfl
    have hkey : ∀ c ∈ activeOf l s.predId, groupKeyForClaim (reads l) pred.schemaPred c =
        .ok (c.predId, c.eRef, dimCells s c) := fun c hc =>
      groupKey_of_fits hl hrows hs (mem_activeOf.mp hc).1 (hfit.arity c hc)
    obtain ⟨chosen, hchosen⟩ :=
      exists_computeChosen hs.predId hs.nonempty hsingle hactive hseq hkey
    obtain ⟨selected, hselected⟩ : ∃ selected,
        selectActive (reads l) pred.schemaPred s.predId = .ok selected := by
      unfold selectActive
      rw [hactive, ok_bind, if_pos hsingle, hchosen]
      exact ⟨_, rfl⟩
    rw [hselected]
    cases keeps_of_selectActive hs.predId hactive hseq hselected with
    | multi hmulti =>
      rw [hsingle] at hmulti
      exact absurd hmulti (by decide)
    | single _ key hkey' =>
      rw [if_neg (by simp), candidates_of_fits hrows hs hfit]
      congr 1
      apply lasts_congr
      intro c hc d hd
      rw [Except.ok.inj ((hkey' c hc).symm.trans (hkey c hc)),
        Except.ok.inj ((hkey' d hd).symm.trans (hkey d hd))]
      have hpred : c.predId = d.predId :=
        (mem_activeOf.mp hc).2.1.trans (mem_activeOf.mp hd).2.1.symm
      -- both sides group by the entity and the dimensions: Python by cells, the program by texts
      have htuple : keyTuple s c = keyTuple s d ↔ c.eRef = d.eRef ∧ dimTexts s c = dimTexts s d := by
        unfold keyTuple dimTexts
        rw [List.cons.injEq, Cell.symbol.injEq]
        apply and_congr_right
        intro _
        have hinj : Function.Injective Cell.symbol := fun a b h => Cell.symbol.inj h
        rw [← List.map_injective_iff.mpr hinj |>.eq_iff, List.map_map, List.map_map]
        rfl
      rw [htuple, Prod.mk.injEq, Prod.mk.injEq]
      constructor
      · rintro ⟨_, he, hdims⟩
        exact ⟨he, (hfit.dims hm c hc d hd he).mp hdims⟩
      · rintro ⟨he, hdims⟩
        exact ⟨hpred, he, (hfit.dims hm c hc d hd he).mpr hdims⟩

/-- The rows of the shown claims, as facts and as tuples. -/
theorem viewRow_of_fits (hl : l.Sound) (hrows : buildFactRows host l = .ok rows)
    (hfit : ClaimsFit l s) {c : Claim} (hc : c ∈ activeOf l s.predId) :
    buildArgsForClaim (reads l) c = .ok (.str c.eRef :: cells c) ∧
      mapOk atomToStr (.str c.eRef :: cells c) = .ok (c.eRef :: texts c) ∧
      s.values ≤ (argsOf c).length ∧ viewRow s c = (c.eRef :: texts c).map .symbol := by
  have hmem := (mem_activeOf.mp hc).1
  have hlen : (argsOf c).length = s.values :=
    (length_argsOf hrows hmem).trans (hfit.arity c hc)
  refine ⟨buildArgs_of_exported hl hrows hmem, texts_of_exported hl hrows hmem, hlen.ge, ?_⟩
  unfold viewRow
  rw [List.take_of_length_le (by simp [texts, hlen])]
  rfl

end Predicate

/-! ## The program -/

theorem generateViewDl_ok {schema : SchemaObject} {w : Bool} {rules : List ViewRule}
    (h : generateViewDl schema true w = .ok rules) : ∃ preds specs,
      schema.predicates = some preds ∧ mapOk viewSpec preds = .ok specs ∧ rules = program w specs := by
  unfold generateViewDl at h
  cases hp : schema.predicates with
  | none => simp [hp] at h
  | some preds =>
    rw [hp] at h
    obtain ⟨specs, hspecs, h⟩ := bind_ok_iff.mp h
    exact ⟨preds, specs, rfl, hspecs, (Except.ok.inj h).symm⟩

/-- The stratum of a relation, by its name. -/
def stratumOf (name : String) : Nat :=
  if name = "active" then 1
  else if name.toList.take 6 = "cand__".toList then 2
  else if name.toList.take 7 = "max_seq".toList then 3
  else if name.toList.take 6 = "better".toList then 4
  else if name.toList.take 6 = "chosen".toList then 5
  else if name.toList.take 2 = "p_".toList then 6
  else 0

/-- The relations of a program for predicates of some engine names. -/
def Rel.Of (w : Bool) (engines : List String) (r : Rel) : Prop :=
  (∀ engine, r = .witness engine → w = true) ∧ ∀ engine, r.engine? = some engine → engine ∈ engines

/-- The relations of the facts, and `active`, are in every program. -/
theorem Rel.of_base {w : Bool} {engines : List String} {r : Rel} (h : r.engine? = none) :
    r.Of w engines := by
  constructor
  · rintro engine rfl
    cases h
  · intro engine hr
    rw [h] at hr
    cases hr

theorem stratumOf_name {w : Bool} {engines : List String}
    (hengines : ∀ e ∈ engines, ∃ p, e = normalizePredId p) {r : Rel} (hr : r.Of w engines) :
    stratumOf r.name = stratum r := by
  have hstart : ∀ e, r.engine? = some e → ∃ cs, e.toList = 'p' :: '_' :: cs := by
    intro e he
    obtain ⟨p, rfl⟩ := hengines e (hr.2 e he)
    exact ⟨_, toList_normalizePredId p⟩
  have hactive : ∀ s : String, s.toList.head? ≠ some 'a' → s ≠ "active" := by
    rintro s hs rfl
    exact hs rfl
  unfold stratumOf
  cases r with
  | claim | claimSeq | claimArg | revokes | active => decide +kernel
  | view e | witness e | cand e | maxSeq e | better e | chosen e =>
    obtain ⟨cs, he⟩ := hstart e rfl
    rw [if_neg (hactive _ (by simp [Rel.name, String.toList_append, he]))]
    simp [Rel.name, String.toList_append, he, stratum]

/-- **Different relations have different names**, where no engine name is that of a witness view. -/
theorem Rel.name_inj {w : Bool} {engines : List String}
    (hengines : ∀ e ∈ engines, ∃ p, e = normalizePredId p)
    (hw : w = true → ∀ e ∈ engines, ∀ e' ∈ engines, e' ≠ (Rel.witness e).name) {r r' : Rel}
    (hr : r.Of w engines) (hr' : r'.Of w engines) (h : r.name = r'.name) : r = r' := by
  have hstrata : stratum r = stratum r' := by
    rw [← stratumOf_name hengines hr, ← stratumOf_name hengines hr', h]
  cases r with
  | claim | claimSeq | claimArg | revokes =>
    cases r' with
    | claim | claimSeq | claimArg | revokes =>
      first
        | rfl
        | exact absurd h (by decide +kernel)
    | _ => simp [stratum] at hstrata
  | active =>
    cases r' with
    | active => rfl
    | _ => simp [stratum] at hstrata
  | cand e | maxSeq e | better e | chosen e =>
    cases r' with
    | cand e' | maxSeq e' | better e' | chosen e' =>
      first
        | exact congrArg _ (String.append_right_inj _ |>.mp h)
        | simp [stratum] at hstrata
    | _ => simp [stratum] at hstrata
  | view e =>
    cases r' with
    | view e' => exact congrArg _ h
    | witness e' => exact absurd h (hw (hr'.1 e' rfl) e' (hr'.2 e' rfl) e (hr.2 e rfl))
    | _ => simp [stratum] at hstrata
  | witness e =>
    cases r' with
    | view e' => exact absurd h.symm (hw (hr.1 e rfl) e (hr.2 e rfl) e' (hr'.2 e' rfl))
    | witness e' => exact congrArg _ (String.append_left_inj _ |>.mp h)
    | _ => simp [stratum] at hstrata

/-- The relations that the rules of a predicate read. -/
theorem ViewSpec.reads_of_mem {s : ViewSpec} {w : Bool} {rule : ViewRule} (h : rule ∈ s.rules w)
    {lit : Datalog.Literal Rel Var Cell} (hlit : lit ∈ rule.body) {r : Rel}
    (hr : lit.rel? = some r) :
    (∀ engine, r ≠ .witness engine) ∧ ∀ engine, r.engine? = some engine → engine = s.engine := by
  have hargs : ∀ lit ∈ s.outputArgs, lit.rel? = some .claimArg := by
    intro lit hlit
    obtain ⟨i, _, rfl⟩ := List.mem_map.mp hlit
    rfl
  have hbody : ∀ first : List (Datalog.Literal Rel Var Cell), (∀ lit ∈ first, ∀ r,
      lit.rel? = some r → (∀ engine, r ≠ .witness engine) ∧
        ∀ engine, r.engine? = some engine → engine = s.engine) →
      lit ∈ first ++ s.outputArgs → (∀ engine, r ≠ .witness engine) ∧
        ∀ engine, r.engine? = some engine → engine = s.engine := by
    intro first hfirst hmem
    rcases List.mem_append.mp hmem with hmem | hmem
    · exact hfirst lit hmem r hr
    · rw [hargs lit hmem] at hr
      cases hr
      simp [Rel.engine?]
  rcases s.mem_rules h with ⟨_, h⟩ | ⟨_, rfl | rfl | rfl | rfl | h⟩
  · rw [(s.mem_outputRules h).1] at hlit
    refine hbody [claimOf s.predId, .pos (atomOf .active [.a])] ?_ hlit
    simp [claimOf, atomOf, Datalog.Literal.rel?, Rel.engine?]
  · simp only [ViewSpec.candRule, List.mem_cons, List.mem_map] at hlit
    rcases hlit with rfl | rfl | rfl | ⟨p, _, rfl⟩ <;> cases hr <;> simp [Rel.engine?, atomOf]
  · simp only [ViewSpec.maxSeqRule, List.mem_cons, List.not_mem_nil, or_false] at hlit
    rcases hlit with rfl | rfl <;> cases hr <;> simp [Rel.engine?]
  · simp only [ViewSpec.betterRule, List.mem_cons, List.not_mem_nil, or_false] at hlit
    rcases hlit with rfl | rfl | rfl | rfl <;> cases hr <;> simp [Rel.engine?, atomOf]
  · simp only [ViewSpec.chosenRule, List.mem_cons, List.not_mem_nil, or_false] at hlit
    rcases hlit with rfl | rfl | rfl <;> cases hr <;> simp [Rel.engine?, atomOf]
  · rw [(s.mem_outputRules h).1] at hlit
    refine hbody [.pos (atomOf (.chosen s.engine) (s.keyVars ++ [Var.a]))] ?_ hlit
    simp [atomOf, Datalog.Literal.rel?, Rel.engine?]

/-- The relations of a program are those of its engine names. -/
theorem Rel.of_program {w : Bool} {specs : List ViewSpec} {rule : ViewRule}
    (h : rule ∈ program w specs) : rule.rel.Of w (specs.map (·.engine)) ∧
      ∀ lit ∈ rule.body, ∀ r, lit.rel? = some r → r.Of w (specs.map (·.engine)) := by
  rcases List.mem_cons.mp h with rfl | h
  · refine ⟨Rel.of_base rfl, ?_⟩
    intro lit hlit r hr
    rcases List.mem_pair.mp hlit with rfl | rfl
    · cases hr
      exact Rel.of_base rfl
    · cases hr
      exact Rel.of_base rfl
  · obtain ⟨s, hs, h⟩ := List.mem_flatMap.mp h
    have hengine := s.engine_of_mem h
    have hmem : s.engine ∈ specs.map (·.engine) := List.mem_map_of_mem hs
    refine ⟨⟨?_, ?_⟩, ?_⟩
    · intro engine hrel
      cases w with
      | true => rfl
      | false =>
        -- without witness views the only output rule is that of the view
        rcases s.mem_rules h with ⟨_, h⟩ | ⟨_, rfl | rfl | rfl | rfl | h⟩
        · rw [List.mem_singleton.mp h] at hrel
          cases hrel
        · cases hrel
        · cases hrel
        · cases hrel
        · cases hrel
        · rw [List.mem_singleton.mp h] at hrel
          cases hrel
    · intro engine hrel
      rw [hengine] at hrel
      cases hrel
      exact hmem
    · intro lit hlit r hr
      obtain ⟨hnone, hown⟩ := s.reads_of_mem h hlit hr
      exact ⟨fun engine hrel => absurd hrel (hnone engine), fun engine hrel => hown engine hrel ▸ hmem⟩

theorem quotable_toString (n : Nat) : Quotable (toString n) := by
  intro c hc
  have hdigit : c.isDigit = true := by
    apply Nat.isDigit_of_mem_toDigits (b := 10) (n := n) (by decide) (by decide)
    simpa [Nat.repr] using hc
  refine ⟨?_, ?_, ?_⟩
  all_goals
    rintro rfl
    exact absurd hdigit (by decide)

theorem map_varArgs (g : Cell → Cell) (vars : List Var) :
    (varArgs vars).map (·.map (Datalog.Term.map g)) = varArgs vars := by
  unfold varArgs
  rw [List.map_map]
  rfl

theorem map_headArgs (g : Cell → Cell) (vars : List Var) :
    (headArgs vars).map (Datalog.Term.map g) = headArgs vars := by
  unfold headArgs
  rw [List.map_map]
  rfl

/-- The literals of a program are read as they are. -/
theorem map_unquote {read : String → String} (hread : ∀ s, Quotable s → read s = s) {w : Bool}
    {specs : List ViewSpec} (hids : ∀ s ∈ specs, Quotable s.predId) {rule : ViewRule}
    (h : rule ∈ program w specs) : rule.map id (Cell.unquote read) = rule := by
  rcases List.mem_cons.mp h with rfl | h
  · rfl
  obtain ⟨s, hs, h⟩ := List.mem_flatMap.mp h
  have hclaim : (claimOf s.predId).map id (Cell.unquote read) = claimOf s.predId := by
    simp [claimOf, Datalog.Literal.map, Datalog.Atom.map, Datalog.Term.map, Cell.unquote,
      hread _ (hids s hs)]
  have hclaimArg : ∀ i value tag, (claimArgAt i value tag).map id (Cell.unquote read) =
      claimArgAt i value tag := by
    intro i value tag
    have hidx : read (toString i) = toString i := hread _ (quotable_toString i)
    unfold claimArgAt Datalog.Literal.map Datalog.Atom.map
    simp only [List.map_cons, List.map_nil, Option.map_some, Datalog.Term.map, Cell.unquote, hidx, id]
  have houtput : s.outputArgs.map (·.map id (Cell.unquote read)) = s.outputArgs := by
    unfold ViewSpec.outputArgs
    rw [List.map_map]
    exact List.map_congr_left fun i _ => hclaimArg i _ _
  have hdims : (s.dims.zipIdx.map fun p => claimArgAt p.1 (.d p.2) (.tagDim p.2)).map
      (·.map id (Cell.unquote read)) =
        s.dims.zipIdx.map fun p => claimArgAt p.1 (.d p.2) (.tagDim p.2) := by
    rw [List.map_map]
    exact List.map_congr_left fun p _ => hclaimArg p.1 _ _
  have hout : ∀ body : List (Datalog.Literal Rel Var Cell),
      body.map (·.map id (Cell.unquote read)) = body → ∀ rule ∈ s.outputRules w body,
        rule.map id (Cell.unquote read) = rule := by
    intro body hbody rule hrule
    unfold ViewSpec.outputRules at hrule
    have hforms : rule = ⟨.view s.engine, headArgs (.e :: s.valueVars), body⟩ ∨
        rule = ⟨.witness s.engine, headArgs (.e :: s.valueVars ++ [.a]), body⟩ := by
      cases w with
      | true => simpa using hrule
      | false => exact .inl (List.mem_singleton.mp hrule)
    rcases hforms with rfl | rfl
    · simp only [Datalog.Rule.map, map_headArgs, hbody, id]
    · simp only [Datalog.Rule.map, map_headArgs, hbody, id]
  rcases s.mem_rules h with ⟨_, h⟩ | ⟨_, rfl | rfl | rfl | rfl | h⟩
  · refine hout _ ?_ rule h
    rw [List.map_cons, List.map_cons, hclaim, houtput]
    rfl
  · simp only [Datalog.Rule.map, ViewSpec.candRule, map_headArgs, List.map_cons, hclaim, hdims, id]
    rfl
  · simp [Datalog.Rule.map, ViewSpec.maxSeqRule, map_headArgs, Datalog.Literal.map,
      Datalog.Atom.map, map_varArgs, Datalog.Term.map]
  · simp [Datalog.Rule.map, ViewSpec.betterRule, map_headArgs, Datalog.Literal.map,
      Datalog.Atom.map, atomOf, map_varArgs, Datalog.Term.map]
  · simp [Datalog.Rule.map, ViewSpec.chosenRule, map_headArgs, Datalog.Literal.map,
      Datalog.Atom.map, atomOf, map_varArgs]
  · refine hout _ ?_ rule h
    rw [List.map_cons, houtput]
    simp [Datalog.Literal.map, Datalog.Atom.map, atomOf, map_varArgs]

/-- What the text derives for a relation, of that name. -/
def textModel (read : String → String) (rules : List ViewRule) (rows : FactRows) :
    Datalog.Interp String Cell :=
  Datalog.Model (readText read rules) rows.files stratumOf

/-- **The text derives what the rules do**, where no literal is escaped and no engine name is that of
a witness view. -/
theorem textModel_iff {read : String → String} (hread : ∀ s, Quotable s → read s = s) {w : Bool}
    {specs : List ViewSpec} (hids : ∀ s ∈ specs, Quotable s.predId)
    (hengines : ∀ s ∈ specs, s.engine = normalizePredId s.predId)
    (hw : w = true → ∀ s ∈ specs, ∀ s' ∈ specs, s'.engine ≠ (Rel.witness s.engine).name)
    {s : ViewSpec} (hs : s ∈ specs) (t : List Cell) :
    textModel read (program w specs) rows s.engine t ↔ derived rows w specs (.view s.engine) t := by
  have hnames : ∀ e ∈ specs.map (·.engine), ∃ p, e = normalizePredId p := by
    intro e he
    obtain ⟨s, hs, rfl⟩ := List.mem_map.mp he
    exact ⟨_, hengines s hs⟩
  have hclash : w = true → ∀ e ∈ specs.map (·.engine), ∀ e' ∈ specs.map (·.engine),
      e' ≠ (Rel.witness e).name := by
    intro htrue e he e' he'
    obtain ⟨s, hs, rfl⟩ := List.mem_map.mp he
    obtain ⟨s', hs', rfl⟩ := List.mem_map.mp he'
    exact hw htrue s hs s' hs'
  have hinj : ∀ r r' : Rel, r.Of w (specs.map (·.engine)) → r'.Of w (specs.map (·.engine)) →
      r.name = r'.name → r = r' := fun r r' hr hr' => Rel.name_inj hnames hclash hr hr'
  have hfacts : ∀ r : Rel, r.Of w (specs.map (·.engine)) → ∀ t,
      rows.files r.name t ↔ rows.load r t := by
    intro r hr t
    constructor
    · rintro ⟨r', hname, hload⟩
      -- only the relations of the files are loaded
      have hr' : r'.Of w (specs.map (·.engine)) := by
        cases r' with
        | claim | claimSeq | claimArg | revokes => exact Rel.of_base rfl
        | _ => cases hload
      exact hinj r' r hr' hr hname ▸ hload
    · exact fun h => ⟨r, rfl, h⟩
  have hview : (Rel.view s.engine).Of w (specs.map (·.engine)) := by
    constructor
    · intro engine hr
      cases hr
    · intro engine hr
      cases hr
      exact List.mem_map_of_mem hs
  exact Datalog.Model.map_iff (Cell.unquote read) (fun rule h => Rel.of_program h)
    (fun rule h => map_unquote hread hids h) hinj hfacts
    (fun r hr => stratumOf_name hnames hr) hview

/-- A predicate whose engine name no other one has owns the relations of the name. -/
theorem owns_of_viewSpecs {before after : List (Option PredObject)} {pred : PredObject}
    {s : ViewSpec} {specs : List ViewSpec} (hspec : viewSpec (some pred) = .ok s)
    (hspecs : mapOk viewSpec (before ++ some pred :: after) = .ok specs)
    (hown : ∀ q : PredObject, some q ∈ before ++ after →
      normalizePredId (q.predId.getD "") ≠ s.engine) :
    s ∈ specs ∧ ∀ s' ∈ specs, s'.engine = s.engine → s' = s := by
  constructor
  · obtain ⟨s', hs', hval⟩ := image_of_mapOk hspecs (List.mem_append_right _ List.mem_cons_self)
    rw [hspec, Except.ok.injEq] at hval
    exact hval ▸ hs'
  · intro s' hs' hengine
    obtain ⟨q, hq, hval⟩ := mem_of_mapOk hspecs hs'
    cases q with
    | none => cases hval
    | some q =>
      have hsq := specOf_viewSpec hval
      by_cases hpred : some q = some pred
      · rw [hpred, hspec, Except.ok.injEq] at hval
        exact hval.symm
      · have hmem : some q ∈ before ++ after := by
          rcases List.mem_append.mp hq with hq | hq
          · exact List.mem_append_left _ hq
          · exact List.mem_append_right _ (List.mem_of_ne_of_mem hpred hq)
        refine absurd ?_ (hown q hmem)
        rw [hsq.predId, Option.getD_some, ← hsq.engine, hengine]

/-- The ids of a schema can be quoted, and with witness views no predicate has the engine name that
the witness view of another one is given. -/
structure Writable (schema : SchemaObject) (w : Bool) : Prop where
  ids : ∀ preds, schema.predicates = some preds → ∀ p, some p ∈ preds →
    Quotable (p.predId.getD "")
  witnesses : w = true → ∀ preds, schema.predicates = some preds → ∀ p q, some p ∈ preds →
    some q ∈ preds →
      normalizePredId (q.predId.getD "") ≠ (Rel.witness (normalizePredId (p.predId.getD ""))).name

/-- **The view program refines the projection.** For a predicate with an engine name of its own whose
active claims fit its declaration, in a program that says what is meant (`Writable`), the relation
derived from the text holds exactly the text rows of the claims that are chosen: all active ones if
it is multi-valued, the chosen one of every group if it is single-valued. Unless it is an existence
predicate, these are the text rows of its view. How the engine reads a literal is its own affair, but
for a text without quotes, backslashes and line breaks. -/
theorem viewProgram_refines {l : Ledger} (hl : l.Reachable) {host : Host} {schema : SchemaObject}
    {read : String → String} (hread : ∀ s, Quotable s → read s = s)
    {w : Bool} {rules : List ViewRule} (hgen : generateViewDl schema true w = .ok rules)
    (hwritable : Writable schema w)
    {rows : FactRows} (hrows : buildFactRows host l = .ok rows)
    {before after : List (Option PredObject)} {pred : PredObject} {s : ViewSpec}
    (hpreds : schema.predicates = some (before ++ some pred :: after))
    (hspec : viewSpec (some pred) = .ok s)
    (hown : ∀ q : PredObject, some q ∈ before ++ after →
      normalizePredId (q.predId.getD "") ≠ s.engine)
    (hfit : ClaimsFit l s) :
    (∃ chosen facts, selectActive (reads l) pred.schemaPred s.predId = .ok chosen ∧
        Keeps (reads l) pred.schemaPred (activeOf l s.predId) chosen ∧
        mapOk (buildArgsForClaim (reads l)) chosen = .ok facts ∧
        HoldsTexts (textModel read rules rows s.engine) facts) ∧
      (pred.isEntityExists = false → ∀ views,
        projectViewFacts host (reads l) schema.schemaIr = .ok views →
        ∃ facts, Dict.get? views s.predId = some facts ∧
          HoldsTexts (textModel read rules rows s.engine) facts) := by
  have hsound := hl.sound
  obtain ⟨preds, specs, hp, hspecs, rfl⟩ := generateViewDl_ok hgen
  obtain rfl : preds = before ++ some pred :: after := Option.some.inj (hp.symm.trans hpreds)
  have hs := specOf_viewSpec hspec
  obtain ⟨hmem, howns⟩ := owns_of_viewSpecs hspec hspecs hown
  have hselect := selectActive_of_fits hsound hrows hs hfit
  have hshown : ∀ c ∈ shownClaims l s, c ∈ activeOf l s.predId := by
    intro c hc
    unfold shownClaims at hc
    split at hc
    · exact hc
    · exact (mem_candidates.mp (List.mem_of_mem_filter hc)).1
  have hfacts : mapOk (buildArgsForClaim (reads l)) (shownClaims l s) =
      .ok ((shownClaims l s).map fun c => .str c.eRef :: cells c) := by
    rw [mapOk_ok_iff, List.forall₂_map_right_iff, List.forall₂_same]
    intro c hc
    exact (viewRow_of_fits hsound hrows hfit (hshown c hc)).1
  -- what the texts need of every relation, since one text can stand for any of them
  have hsource : ∀ s' ∈ specs, ∃ p : PredObject, some p ∈ before ++ some pred :: after ∧
      s'.predId = p.predId.getD "" ∧ s'.engine = normalizePredId s'.predId := by
    intro s' hs'
    obtain ⟨p, hp, hval⟩ := mem_of_mapOk hspecs hs'
    cases p with
    | none => cases hval
    | some p =>
      have hsp := specOf_viewSpec hval
      exact ⟨p, hp, by rw [hsp.predId, Option.getD_some], hsp.engine⟩
  have hids : ∀ s' ∈ specs, Quotable s'.predId := by
    intro s' hs'
    obtain ⟨p, hp, hid, _⟩ := hsource s' hs'
    exact hid ▸ hwritable.ids _ hpreds p hp
  have hclash : w = true → ∀ s₁ ∈ specs, ∀ s₂ ∈ specs,
      s₂.engine ≠ (Rel.witness s₁.engine).name := by
    intro htrue s₁ hs₁ s₂ hs₂
    obtain ⟨p, hp, hid, hengine⟩ := hsource s₁ hs₁
    obtain ⟨q, hq, hid', hengine'⟩ := hsource s₂ hs₂
    rw [hengine, hengine', hid, hid']
    exact hwritable.witnesses htrue _ hpreds p q hp hq
  have hengines : ∀ s' ∈ specs, s'.engine = normalizePredId s'.predId := by
    intro s' hs'
    obtain ⟨_, _, _, hengine⟩ := hsource s' hs'
    exact hengine
  -- the texts are those of the model, and the model that of the shown claims
  have hholds : HoldsTexts (textModel read (program w specs) rows s.engine)
      ((shownClaims l s).map fun c => .str c.eRef :: cells c) := by
    intro t
    rw [textModel_iff hread hids hengines hclash hmem t]
    refine (view_iff hrows hsound hmem howns t).trans ?_
    simp only [List.mem_map, exists_exists_and_eq_and]
    constructor
    · rintro ⟨c, hc, _, rfl⟩
      obtain ⟨_, htexts, _, hrow⟩ := viewRow_of_fits hsound hrows hfit (hshown c hc)
      exact ⟨c, hc, _, htexts, hrow⟩
    · rintro ⟨c, hc, row, htext, rfl⟩
      obtain ⟨_, htexts, hlen, hrow⟩ := viewRow_of_fits hsound hrows hfit (hshown c hc)
      rw [htexts, Except.ok.injEq] at htext
      exact ⟨c, hc, hlen, htext ▸ hrow.symm⟩
  refine ⟨⟨_, _, hselect, keeps_of_selectActive hs.predId (activeClaims_of_sound hsound s.predId)
    (sequenced_activeOf hsound s.predId) hselect, hfacts, hholds⟩, ?_⟩
  intro hordinary views hviews
  have hir : schema.schemaIr.predicates =
      some ((before.map fun p => p.map PredObject.schemaPred) ++ some pred.schemaPred ::
        after.map fun p => p.map PredObject.schemaPred) := by
    unfold SchemaObject.schemaIr
    rw [hpreds]
    simp
  -- no later predicate takes the view over: it would have the same engine name
  have hlast : ∀ q, some q ∈ after.map (fun p => p.map PredObject.schemaPred) →
      q.predId ≠ some s.predId := by
    intro q hq hid
    obtain ⟨p, hp, hqp⟩ := List.mem_map.mp hq
    cases p with
    | none => cases hqp
    | some p =>
      obtain rfl : p.schemaPred = q := Option.some.inj hqp
      refine hown p (List.mem_append_right _ hp) ?_
      rw [show p.predId = some s.predId from hid, Option.getD_some, hs.engine]
  obtain ⟨selected, facts, hselected, hrowsOf, hget⟩ :=
    view_of_predicate hviews hir hs.predId hlast hordinary
  rw [hselect, Except.ok.injEq] at hselected
  subst hselected
  rw [hfacts, Except.ok.injEq] at hrowsOf
  subst hrowsOf
  refine ⟨_, hget, ?_⟩
  intro t
  rw [hholds t]
  unfold sortByFact
  simp only [List.mem_insertionSort]

/-! ## Where the two differ -/

/-- The relation of a predicate holds the text rows of its view, where a literal is read as it is
written. -/
def ViewAgrees (host : Host) (l : Ledger) (schema : SchemaObject) (w : Bool) (predId : String) :
    Prop :=
  ∀ rules rows views facts, generateViewDl schema true w = .ok rules →
    buildFactRows host l = .ok rows →
    projectViewFacts host (reads l) schema.schemaIr = .ok views →
    Dict.get? views predId = some facts →
    HoldsTexts (textModel id rules rows (normalizePredId predId)) facts

/-- A ledger with these claims. -/
def ledgerOf (claims : List Claim) : Ledger := (claims.map Write.claim).foldl Write.run .empty

theorem reachable_ledgerOf (claims : List Claim) : (ledgerOf claims).Reachable :=
  ⟨[], claims.map Write.claim, rfl⟩

/-- A predicate of users with value columns. -/
def userPred (predId cardinality : String) (argSpecs : Nat) (groupKeyIndexes : List Int) :
    PredObject where
  predId := some predId
  cardinality := some cardinality
  argSpecs := some argSpecs
  groupKeyIndexes := some (groupKeyIndexes.map some)
  ownerType := some "User"

/-- The existence predicate of users. -/
def userExists : PredObject := { userPred "User:exists" "single" 1 [0] with isEntityExists := true }

def schemaOf (preds : List PredObject) : SchemaObject := ⟨some (preds.map some), some []⟩

theorem generate_schemaOf {preds : List PredObject} {specs : List ViewSpec} {w : Bool}
    (h : mapOk viewSpec (preds.map some) = .ok specs) :
    generateViewDl (schemaOf preds) true w = .ok (program w specs) := by
  unfold generateViewDl schemaOf
  simp only
  rw [h]
  rfl

/-- An asserted user without an identity. -/
def anonymous : Claim := ⟨"a1", "User:exists", "e1", []⟩

/-- Two values where one is declared. -/
def twoNames : Claim :=
  ⟨"a1", "User:name", "e1", [("string", .leaf (.str "x")), ("string", .leaf (.str "y"))]⟩

/-- A score of the round 1. -/
def intRound : Claim :=
  ⟨"a1", "User:score", "e1", [("int", .leaf (.int 1)), ("string", .leaf (.str "x"))]⟩

/-- A score of a round that is called 1. -/
def textRound : Claim :=
  ⟨"a2", "User:score", "e1", [("string", .leaf (.str "1")), ("string", .leaf (.str "y"))]⟩

/-- A claim of `a::b`. -/
def colons : Claim := ⟨"a1", "a::b", "e1", []⟩

def specNamed (predId : String) (multi : Bool) (values : Nat) (dims : List Nat) : ViewSpec :=
  ⟨predId, normalizePredId predId, multi, values, dims⟩

instance (s : String) : Decidable (Quotable s) :=
  decidable_of_iff (s.toList.all (fun c => c ≠ '"' && c ≠ '\\' && c ≠ '\n') = true)
    (by simp [Quotable, and_assoc])

/-- The view of the only predicate of a schema. -/
theorem view_of_only {claims : List Claim} {rows : FactRows} {s : ViewSpec}
    (hrows : buildFactRows plainHost (ledgerOf claims) = .ok rows) (hid : Quotable s.predId)
    (hengine : s.engine = normalizePredId s.predId) (t : List Cell) :
    textModel id (program false [s]) rows s.engine t ↔
      ∃ c ∈ shownClaims (ledgerOf claims) s, s.values ≤ (argsOf c).length ∧ t = viewRow s c := by
  have hread : ∀ s : String, Quotable s → id s = s := fun _ _ => rfl
  rw [textModel_iff hread (by simpa using hid) (by simpa using hengine) (fun h => by cases h)
    (List.mem_singleton.mpr rfl)]
  exact view_iff hrows (reachable_ledgerOf claims).sound (List.mem_singleton.mpr rfl)
    (fun _ hs _ => List.mem_singleton.mp hs) t

/-- An asserted user without an identity is in the relation, and not in the view. -/
theorem viewDisagrees_exists :
    ¬ ViewAgrees plainHost (ledgerOf [anonymous]) (schemaOf [userExists]) false "User:exists" := by
  intro h
  have hspecs : mapOk viewSpec ([userExists].map some) =
      .ok [specNamed "User:exists" false 0 []] := by rfl
  have hrows : buildFactRows plainHost (ledgerOf [anonymous]) =
      .ok ⟨[["a1", "User:exists", "e1", "sha256:"]], [], [], [["a1", "1"]]⟩ := by rfl
  have hviews : projectViewFacts plainHost (reads (ledgerOf [anonymous]))
      (schemaOf [userExists]).schemaIr = .ok [("User:exists", [])] := by rfl
  have hshown : anonymous ∈
      shownClaims (ledgerOf [anonymous]) (specNamed "User:exists" false 0 []) := by decide +kernel
  have hrow := (view_of_only (s := specNamed "User:exists" false 0 []) hrows (by decide +kernel) rfl _).mpr
    ⟨anonymous, hshown, Nat.zero_le _, rfl⟩
  obtain ⟨fact, hfact, _⟩ := (h _ _ _ _ (generate_schemaOf hspecs) hrows hviews rfl _).mp hrow
  exact absurd hfact List.not_mem_nil

/-- Of a claim with a value too many the relation has a shorter row. -/
theorem viewDisagrees_arity :
    ¬ ViewAgrees plainHost (ledgerOf [twoNames]) (schemaOf [userPred "User:name" "multi" 2 [0]]) false "User:name" := by
  intro h
  have hspecs : mapOk viewSpec ([userPred "User:name" "multi" 2 [0]].map some) =
      .ok [specNamed "User:name" true 1 []] := by rfl
  obtain ⟨rows, hrows⟩ : ∃ rows, buildFactRows plainHost (ledgerOf [twoNames]) = .ok rows :=
    ⟨⟨[["a1", "User:name", "e1", "sha256:"]],
      [["a1", "0", "x", "string"], ["a1", "1", "y", "string"]], [], [["a1", "1"]]⟩,
      by rfl⟩
  have hviews : projectViewFacts plainHost (reads (ledgerOf [twoNames]))
      (schemaOf [userPred "User:name" "multi" 2 [0]]).schemaIr =
      .ok [("User:name", [[.str "e1", .str "x", .str "y"]])] := by rfl
  have hshown : twoNames ∈
      shownClaims (ledgerOf [twoNames]) (specNamed "User:name" true 1 []) := by decide +kernel
  have hrow := (view_of_only (s := specNamed "User:name" true 1 []) hrows (by decide +kernel) rfl _).mpr
    ⟨twoNames, hshown, by decide, rfl⟩
  obtain ⟨fact, hfact, row, htext, hcells⟩ :=
    (h _ _ _ _ (generate_schemaOf hspecs) hrows hviews rfl _).mp hrow
  obtain rfl := List.mem_singleton.mp hfact
  obtain rfl := Except.ok.inj htext
  exact absurd hcells (by decide +kernel)

/-- Two rounds of one text are one group of the program, and two of the policies. -/
theorem viewDisagrees_text :
    ¬ ViewAgrees plainHost (ledgerOf [intRound, textRound])
      (schemaOf [userPred "User:score" "single" 3 [0, 1]]) false "User:score" := by
  intro h
  have hspecs : mapOk viewSpec ([userPred "User:score" "single" 3 [0, 1]].map some) =
      .ok [specNamed "User:score" false 2 [0]] := by rfl
  obtain ⟨rows, hrows⟩ : ∃ rows,
      buildFactRows plainHost (ledgerOf [intRound, textRound]) = .ok rows :=
    ⟨⟨[["a1", "User:score", "e1", "sha256:"], ["a2", "User:score", "e1", "sha256:"]],
      [["a1", "0", "1", "int"], ["a1", "1", "x", "string"], ["a2", "0", "1", "string"],
        ["a2", "1", "y", "string"]], [], [["a1", "1"], ["a2", "2"]]⟩, by rfl⟩
  have hviews : projectViewFacts plainHost (reads (ledgerOf [intRound, textRound]))
      (schemaOf [userPred "User:score" "single" 3 [0, 1]]).schemaIr =
      .ok [("User:score", [[.str "e1", .int 1, .str "x"], [.str "e1", .str "1", .str "y"]])] := by
    rfl
  have hshown : shownClaims (ledgerOf [intRound, textRound])
      (specNamed "User:score" false 2 [0]) = [textRound] := by rfl
  have hrow := (h _ _ _ _ (generate_schemaOf hspecs) hrows hviews rfl
    (["e1", "1", "x"].map .symbol)).mpr ⟨_, List.mem_cons_self, ["e1", "1", "x"], by rfl, rfl⟩
  obtain ⟨c, hc, _, hcells⟩ :=
    (view_of_only (s := specNamed "User:score" false 2 [0]) hrows (by decide +kernel) rfl _).mp hrow
  rw [hshown, List.mem_singleton] at hc
  subst hc
  exact absurd hcells (by decide +kernel)

/-- Two predicates of one engine name share a relation. -/
theorem viewDisagrees_name :
    ¬ ViewAgrees plainHost (ledgerOf [colons])
      (schemaOf [userPred "a::b" "multi" 1 [0], userPred "a_b" "multi" 1 [0]]) false "a_b" := by
  intro h
  have hspecs : mapOk viewSpec
      ([userPred "a::b" "multi" 1 [0], userPred "a_b" "multi" 1 [0]].map some) =
      .ok [specNamed "a::b" true 0 [], specNamed "a_b" true 0 []] := by rfl
  obtain ⟨rows, hrows⟩ : ∃ rows, buildFactRows plainHost (ledgerOf [colons]) = .ok rows :=
    ⟨⟨[["a1", "a::b", "e1", "sha256:"]], [], [], [["a1", "1"]]⟩, by rfl⟩
  have hviews : projectViewFacts plainHost (reads (ledgerOf [colons]))
      (schemaOf [userPred "a::b" "multi" 1 [0], userPred "a_b" "multi" 1 [0]]).schemaIr =
      .ok [("a::b", [[.str "e1"]]), ("a_b", [])] := by rfl
  have hname : normalizePredId "a_b" = normalizePredId "a::b" := by rfl
  have hactive : colons ∈ activeOf (ledgerOf [colons]) "a::b" := by decide +kernel
  let specs := [specNamed "a::b" true 0 [], specNamed "a_b" true 0 []]
  have hrow : textModel id (program false specs) rows (normalizePredId "a_b") [.symbol "e1"] := by
    rw [hname]
    refine (textModel_iff (fun _ _ => rfl) (s := specNamed "a::b" true 0 []) (by decide +kernel)
      (by decide +kernel) (fun h => by cases h) List.mem_cons_self _).mpr ?_
    refine derived_iff.mpr (.inr ⟨⟨.view (normalizePredId "a::b"), headArgs [.e],
      [claimOf "a::b", .pos (atomOf .active [.a])]⟩, ?_, rfl,
      valuation (specNamed "a::b" true 0 []) 0 colons, rfl, ?_⟩)
    · exact List.mem_cons_of_mem _ List.mem_cons_self
    · rw [List.forall_mem_cons, List.forall_mem_singleton]
      exact (holds_activeClaim hrows (reachable_ledgerOf _).sound).mpr ⟨colons, hactive, rfl, rfl⟩
  obtain ⟨fact, hfact, _⟩ := (h _ _ _ _ (generate_schemaOf hspecs) hrows hviews rfl _).mp hrow
  exact absurd hfact List.not_mem_nil

/-- The text of a program is stratified as the program is. -/
theorem stratified_readText {read : String → String} {w : Bool} {specs : List ViewSpec}
    (hengines : ∀ s ∈ specs, s.engine = normalizePredId s.predId) :
    Datalog.Stratified (readText read (program w specs)) stratumOf := by
  have hnames : ∀ e ∈ specs.map (·.engine), ∃ p, e = normalizePredId p := by
    intro e he
    obtain ⟨s, hs, rfl⟩ := List.mem_map.mp he
    exact ⟨_, hengines s hs⟩
  intro rule' hrule' lit' hlit'
  obtain ⟨rule, hrule, rfl⟩ := List.mem_map.mp hrule'
  obtain ⟨lit, hlit, rfl⟩ := List.mem_map.mp hlit'
  obtain ⟨hrel, hreads⟩ := Rel.of_program hrule
  have hbelow := stratified_program w specs rule hrule lit hlit
  show Datalog.Literal.Below _ (stratumOf rule.rel.name) _
  rw [stratumOf_name hnames hrel]
  cases lit with
  | pos a =>
    show stratumOf a.rel.name ≤ _
    rw [stratumOf_name hnames (hreads _ hlit _ rfl)]
    exact hbelow
  | neg a =>
    show stratumOf a.rel.name < _
    rw [stratumOf_name hnames (hreads _ hlit _ rfl)]
    exact hbelow
  | compare p x y => trivial
  | aggregate f v u a =>
    show stratumOf a.rel.name < _
    rw [stratumOf_name hnames (hreads _ hlit _ rfl)]
    exact hbelow

/-- The witness view of `a` has the name of the relation of `a:w`. -/
theorem viewDisagrees_witness :
    ¬ ViewAgrees plainHost (ledgerOf [⟨"a1", "a", "e1", []⟩])
      (schemaOf [userPred "a" "multi" 1 [0], userPred "a:w" "multi" 1 [0]]) true "a:w" := by
  intro h
  let specs := [specNamed "a" true 0 [], specNamed "a:w" true 0 []]
  have hspecs : mapOk viewSpec
      ([userPred "a" "multi" 1 [0], userPred "a:w" "multi" 1 [0]].map some) = .ok specs := by rfl
  let rows : FactRows := ⟨[["a1", "a", "e1", "sha256:"]], [], [], [["a1", "1"]]⟩
  have hrows : buildFactRows plainHost (ledgerOf [⟨"a1", "a", "e1", []⟩]) = .ok rows := by rfl
  have hviews : projectViewFacts plainHost (reads (ledgerOf [⟨"a1", "a", "e1", []⟩]))
      (schemaOf [userPred "a" "multi" 1 [0], userPred "a:w" "multi" 1 [0]]).schemaIr =
      .ok [("a", [[.str "e1"]]), ("a:w", [])] := by rfl
  have hs : Datalog.Stratified (readText id (program true specs)) stratumOf :=
    stratified_readText (by decide +kernel)
  have hclaim : textModel id (program true specs) rows "claim"
      [.symbol "a1", .symbol "a", .symbol "e1", .symbol "sha256:"] :=
    (Datalog.Model.iff_rule hs).mpr (.inl ⟨.claim, rfl, _, List.mem_cons_self, rfl⟩)
  have hrevokes : ∀ t, ¬ textModel id (program true specs) rows "revokes" t := by
    intro t ht
    rcases (Datalog.Model.iff_rule hs).mp ht with ⟨r, hname, hload⟩ | ⟨rule, hrule, hrel, _⟩
    · cases r with
      | revokes =>
        obtain ⟨row, hrow, _⟩ := hload
        cases hrow
      | claim | claimSeq | claimArg => exact absurd hname (by decide +kernel)
      | _ => cases hload
    · have hnone : ∀ rule ∈ readText id (program true specs), rule.rel ≠ "revokes" := by
        decide +kernel
      exact hnone rule hrule hrel
  have hactive : textModel id (program true specs) rows "active" [.symbol "a1"] := by
    refine (Datalog.Model.iff_rule hs).mpr (.inr ⟨_, List.mem_cons_self, rfl,
      fun _ => .symbol "a1", rfl, ?_⟩)
    intro lit hlit
    rcases List.mem_pair.mp hlit with rfl | rfl
    · exact ⟨_, hclaim, by simp [Datalog.Atom.map, Datalog.Term.map]⟩
    · rintro ⟨t, ht, _⟩
      exact hrevokes t ht
  have hrow : textModel id (program true specs) rows (normalizePredId "a:w")
      [.symbol "e1", .symbol "a1"] := by
    have hrule : Datalog.Rule.map Rel.name (Cell.unquote id) ⟨.witness (normalizePredId "a"),
        headArgs [.e, .a], [claimOf "a", .pos (atomOf .active [.a])]⟩ ∈
          readText id (program true specs) :=
      List.mem_map.mpr ⟨_, List.mem_cons_of_mem _ (List.mem_cons_of_mem _ List.mem_cons_self), rfl⟩
    refine (Datalog.Model.iff_rule hs).mpr (.inr ⟨_, hrule, by decide +kernel,
      Function.update (fun _ => .symbol "a1") .e (.symbol "e1"), rfl, ?_⟩)
    intro lit hlit
    rcases List.mem_pair.mp hlit with rfl | rfl
    · exact ⟨_, hclaim, by simp [Datalog.Atom.map, Datalog.Term.map, Cell.unquote]⟩
    · exact ⟨_, hactive, by simp [atomOf, varArgs, Datalog.Atom.map, Datalog.Term.map]⟩
  obtain ⟨fact, hfact, _⟩ := (h _ _ _ _ (generate_schemaOf hspecs) hrows hviews rfl _).mp hrow
  exact absurd hfact List.not_mem_nil

/-- **The view program does not agree with the projection**, for an existence predicate, for a claim
of another arity than declared, for dimensions of one text, for predicates of one engine name, and
for one with the name of a witness view. -/
theorem viewProgram_disagrees :
    ¬ ViewAgrees plainHost (ledgerOf [anonymous]) (schemaOf [userExists]) false "User:exists" ∧
      ¬ ViewAgrees plainHost (ledgerOf [twoNames])
        (schemaOf [userPred "User:name" "multi" 2 [0]]) false "User:name" ∧
      ¬ ViewAgrees plainHost (ledgerOf [intRound, textRound])
        (schemaOf [userPred "User:score" "single" 3 [0, 1]]) false "User:score" ∧
      ¬ ViewAgrees plainHost (ledgerOf [colons])
        (schemaOf [userPred "a::b" "multi" 1 [0], userPred "a_b" "multi" 1 [0]]) false "a_b" ∧
      ¬ ViewAgrees plainHost (ledgerOf [⟨"a1", "a", "e1", []⟩])
        (schemaOf [userPred "a" "multi" 1 [0], userPred "a:w" "multi" 1 [0]]) true "a:w" :=
  ⟨viewDisagrees_exists, viewDisagrees_arity, viewDisagrees_text, viewDisagrees_name,
    viewDisagrees_witness⟩

/-- The relation of names and the view of names, of a ledger with one name. -/
theorem viewProgram_refines_name :
    ∃ rules rows views facts,
      generateViewDl (schemaOf [userPred "User:name" "multi" 2 [0]]) true false = .ok rules ∧
      buildFactRows plainHost
        (ledgerOf [⟨"a1", "User:name", "e1", [("string", .leaf (.str "x"))]⟩]) = .ok rows ∧
      projectViewFacts plainHost
        (reads (ledgerOf [⟨"a1", "User:name", "e1", [("string", .leaf (.str "x"))]⟩]))
        (schemaOf [userPred "User:name" "multi" 2 [0]]).schemaIr = .ok views ∧
      Dict.get? views "User:name" = some facts ∧
      HoldsTexts (textModel id rules rows (normalizePredId "User:name")) facts := by
  let name : Claim := ⟨"a1", "User:name", "e1", [("string", .leaf (.str "x"))]⟩
  have hspecs : mapOk viewSpec ([userPred "User:name" "multi" 2 [0]].map some) =
      .ok [specNamed "User:name" true 1 []] := by rfl
  have hspec : viewSpec (some (userPred "User:name" "multi" 2 [0])) =
      .ok (specNamed "User:name" true 1 []) := by rfl
  obtain ⟨rows, hrows⟩ : ∃ rows, buildFactRows plainHost (ledgerOf [name]) = .ok rows :=
    ⟨⟨[["a1", "User:name", "e1", "sha256:"]], [["a1", "0", "x", "string"]], [], [["a1", "1"]]⟩,
      by decide +kernel⟩
  have hviews : projectViewFacts plainHost (reads (ledgerOf [name]))
      (schemaOf [userPred "User:name" "multi" 2 [0]]).schemaIr =
      .ok [("User:name", [[.str "e1", .str "x"]])] := by decide +kernel
  have hactive : activeOf (ledgerOf [name]) "User:name" = [name] := by decide +kernel
  have hfit : ClaimsFit (ledgerOf [name]) (specNamed "User:name" true 1 []) := by
    refine ⟨?_, fun hm => absurd hm (by decide)⟩
    intro c hc
    rw [show (specNamed "User:name" true 1 []).predId = "User:name" from rfl, hactive,
      List.mem_singleton] at hc
    subst hc
    rfl
  have hpreds : (schemaOf [userPred "User:name" "multi" 2 [0]]).predicates =
      some ([] ++ some (userPred "User:name" "multi" 2 [0]) :: []) := rfl
  have hwritable : Writable (schemaOf [userPred "User:name" "multi" 2 [0]]) false := by
    refine ⟨?_, fun h => by cases h⟩
    rintro preds ⟨⟩ p hp
    obtain rfl : p = userPred "User:name" "multi" 2 [0] := by simpa using hp
    decide +kernel
  have hread : ∀ s : String, Quotable s → id s = s := fun _ _ => rfl
  obtain ⟨facts, hget, hholds⟩ := (viewProgram_refines (reachable_ledgerOf [name]) hread
    (generate_schemaOf hspecs) hwritable hrows hpreds hspec (by simp) hfit).2 rfl _ hviews
  exact ⟨_, rows, _, facts, generate_schemaOf hspecs, hrows, hviews, hget, hholds⟩

end FactGraph.Souffle
