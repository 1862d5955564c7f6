import FactGraph.Goal.Result

/-!
# Comparing the sides of a run

`compare_policy_variants_v1` and `diff_scenario_run_v1` of `application/evaluation_run_v1_runtime.py`.
A run has a result of its plan in the baseline world and in the effective one, and may have one of a
candidate in the effective world. Two sides are compared by the digests of the rows in their results.

Where the result mode is `exists`, what is compared is not what was selected but a witness of it. The
comparison then tells of the selected rows exactly if both sides together select at most one
(`run_told_iff`); in the other modes it always does, and expectations are always told truly.

The pins of programs and worlds that a comparison carries besides are left out.
-/

namespace FactGraph.Goal

open Protocol Store Db Check Evaluate JsonText
open Scenario (canonicalStrings mem_canonicalStrings canonicalStrings_idem)

/-! ## Runs -/

/-- What a side is made of: the rows an engine selects, and what its world says of absences. -/
structure SideInput where
  rows : EngineEvaluation
  absence : Absence

/-- The rows that are selected. -/
def SideInput.selected (side : SideInput) (plan : GoalPlan) : List GoalRow :=
  (mapOk (goalRow plan) side.rows.rows).toOption.getD []

/-- Whether a run is evaluated live or from what a sealed request captured. -/
inductive RunPath where
  | live | captured
  deriving DecidableEq, Repr

/-- A candidate, and its side in the effective world. -/
structure Candidate where
  plan : GoalPlan
  side : SideInput

/-- What a run is made of. -/
structure RunInput where
  path : RunPath
  plan : GoalPlan
  baseline : SideInput
  effective : SideInput
  candidate : Option Candidate
  admitted : path = .live → plan.admitted = true
  /-- `EvaluationRunV1.__post_init__`: the same projection, and no expectations. -/
  comparable : ∀ c ∈ candidate, c.plan.resultMode = plan.resultMode ∧
    c.plan.selections = plan.selections ∧
    c.plan.scenarioRequestDigest = plan.scenarioRequestDigest ∧ c.plan.expectations = []

/-- `_evaluate_side`, `_evaluate_captured_side`: the canonical result. -/
def evaluateSide (host : Host) (path : RunPath) (plan : GoalPlan) (side : SideInput) :
    Except Fault GoalResult :=
  match path with
  | .live => goalResultFromRows host plan side.absence side.rows
  | .captured => goalResultFromEngineOutput host plan side.absence side.rows

/-- `EvaluationRunV1`. -/
structure EvaluationRun where
  plan : GoalPlan
  baseline : GoalResult
  effective : GoalResult
  candidateEffective : Option GoalResult

def evaluateRun (host : Host) (i : RunInput) : Except Fault EvaluationRun := do
  let baseline ← evaluateSide host i.path i.plan i.baseline
  let effective ← evaluateSide host i.path i.plan i.effective
  match i.candidate with
  | none => .ok ⟨i.plan, baseline, effective, none⟩
  | some c => do
      let candidateEffective ← evaluateSide host i.path c.plan c.side
      .ok ⟨i.plan, baseline, effective, some candidateEffective⟩

/-! ## Comparisons -/

/-- The row sets of a `PolicyVariantComparisonV1` or of a `ScenarioDiffV1`; `equivalent` says which
`result_relation` it is. -/
structure RowComparison where
  shared : List String
  leftOnly : List String
  rightOnly : List String
  equivalent : Bool

/-- The checks of `__post_init__` on the row sets. -/
def RowComparison.checks (c : RowComparison) : Bool :=
  [c.shared, c.leftOnly, c.rightOnly].all (fun digests => canonicalStrings digests = digests) &&
    c.shared.all (· ∉ c.leftOnly) && c.shared.all (· ∉ c.rightOnly) &&
    c.equivalent == (c.leftOnly.isEmpty && c.rightOnly.isEmpty)

def rowSets (host : Host) (left right : GoalResult) : RowComparison :=
  let leftRows := left.rows.map (semanticRowDigest host)
  let rightRows := right.rows.map (semanticRowDigest host)
  { shared := canonicalStrings (leftRows.filter (· ∈ rightRows))
    leftOnly := canonicalStrings (leftRows.filter (· ∉ rightRows))
    rightOnly := canonicalStrings (rightRows.filter (· ∉ leftRows))
    equivalent := leftRows.all (· ∈ rightRows) && rightRows.all (· ∈ leftRows) }

/-- How both functions compare two results. -/
def compareRows (host : Host) (code : String) (left right : GoalResult) :
    Except Fault RowComparison := do
  require (rowSets host left right).checks
    (.runtime "comparison row digests must be canonical sets" code)
  .ok (rowSets host left right)

/-- `compare_policy_variants_v1`. -/
def comparePolicyVariants (host : Host) (run : EvaluationRun) : Except Fault RowComparison :=
  match run.candidateEffective with
  | none => .error (.runtime "run has no immutable candidate comparison"
      "EVALUATION_RUN_V1_COMPARISON_UNAVAILABLE")
  | some candidate =>
      compareRows host "EVALUATION_RUN_V1_COMPARISON_INVALID" run.effective candidate

/-- `diff_scenario_run_v1`. -/
def diffScenarioRun (host : Host) (run : EvaluationRun) : Except Fault RowComparison :=
  match run.plan.scenarioRequestDigest with
  | none => .error (.runtime "run has no explicit Scenario request"
      "EVALUATION_RUN_V1_SCENARIO_DIFF_UNAVAILABLE")
  | some _ => compareRows host "EVALUATION_RUN_V1_SCENARIO_DIFF_INVALID" run.baseline run.effective

/-! ## What is to be told -/

/-- What an expectation says of the selected rows. -/
def GoalExpectation.Holds (selected : List GoalRow) : GoalExpectation → Prop
  | .containsRow _ expected => ∃ r ∈ selected, ∀ p ∈ expected.values, p ∈ r.values
  | .existence _ expected => (selected ≠ [] ↔ expected = true)
  | .countEq _ expectedCount => selected.toFinset.card = expectedCount
  | .setEquals _ rows => ∀ r, r ∈ selected ↔ r ∈ rows
  | .exactLocalAbsence .. => True

/-- An outcome says of an expectation about rows whether it holds of them. -/
structure ExpectationOutcome.Tells (selected : List GoalRow) (e : GoalExpectation)
    (o : ExpectationOutcome) : Prop where
  id : o.expectationId = e.expectationId
  satisfied : e.kind ≠ "exact_local_absence" → (o.status = .satisfied ↔ e.Holds selected)
  notSatisfied : e.kind ≠ "exact_local_absence" → (o.status = .notSatisfied ↔ ¬e.Holds selected)

/-- Both sides select the same rows, or, where only existence is asked for, both select any. -/
def Equivalent (mode : ResultMode) (left right : List GoalRow) : Prop :=
  if mode = .existence then (left = [] ↔ right = []) else ∀ r, r ∈ left ↔ r ∈ right

/-- A comparison says what is common to the rows of two sides and what is not. -/
structure RowComparison.Tells (host : Host) (mode : ResultMode) (left right : List GoalRow)
    (c : RowComparison) : Prop where
  equivalent : c.equivalent = true ↔ Equivalent mode left right
  shared : ∀ d, d ∈ c.shared ↔ ∃ r ∈ left, r ∈ right ∧ semanticRowDigest host r = d
  leftOnly : ∀ d, d ∈ c.leftOnly ↔ ∃ r ∈ left, r ∉ right ∧ semanticRowDigest host r = d
  rightOnly : ∀ d, d ∈ c.rightOnly ↔ ∃ r ∈ right, r ∉ left ∧ semanticRowDigest host r = d

/-- Outcomes and comparisons of a run tell the truth about the rows that are selected. -/
structure RunInput.Told (host : Host) (i : RunInput) (run : EvaluationRun) : Prop where
  baseline : List.Forall₂ (ExpectationOutcome.Tells (i.baseline.selected i.plan))
    i.plan.expectations run.baseline.outcomes
  effective : List.Forall₂ (ExpectationOutcome.Tells (i.effective.selected i.plan))
    i.plan.expectations run.effective.outcomes
  variants : ∀ c ∈ i.candidate, ∃ comparison, comparePolicyVariants host run = .ok comparison ∧
    comparison.Tells host i.plan.resultMode (i.effective.selected i.plan) (c.side.selected c.plan)
  scenario : i.plan.scenarioRequestDigest.isSome = true → ∃ diff, diffScenarioRun host run = .ok diff ∧
    diff.Tells host i.plan.resultMode (i.baseline.selected i.plan) (i.effective.selected i.plan)

def AtMostOne (rows : List GoalRow) : Prop := ∀ r ∈ rows, ∀ r' ∈ rows, r = r'

/-- If only existence is asked for, sides that are compared select at most one row together. -/
structure RunInput.Comparable (i : RunInput) : Prop where
  variants : i.plan.resultMode = .existence → ∀ c ∈ i.candidate,
    AtMostOne (i.effective.selected i.plan ++ c.side.selected c.plan)
  scenario : i.plan.resultMode = .existence → i.plan.scenarioRequestDigest.isSome = true →
    AtMostOne (i.baseline.selected i.plan ++ i.effective.selected i.plan)

/-! ## Digests -/

section Digests

variable {host : Host} (hsha : Function.Injective host.sha256)

include hsha

theorem token_inj {label : String} {payload payload' : Json}
    (h : host.token label payload = host.token label payload') :
    mapLeaves telling payload = mapLeaves telling payload' := by
  have hdigest := hsha (hexdigest_inj ((String.append_right_inj _).mp h))
  have htold := telling_of_jsonDumps bits_floatText jsonEscaping (utf8_injective hdigest)
  simpa [mapLeaves, mapLeavesFields] using htold

theorem valueDigest_inj {v v' : GoalValue} (h : valueDigest host v = valueDigest host v') : v = v' := by
  have htold := token_inj hsha h
  obtain ⟨n, -, hn⟩ := valAtom_ok_iff.mp v.valAtom_toRaw
  obtain ⟨n', -, hn'⟩ := valAtom_ok_iff.mp v'.valAtom_toRaw
  obtain ⟨tag, value, hv⟩ := v
  obtain ⟨tag', value', hv'⟩ := v'
  simp only at hn hn'
  subst hn hn'
  cases n <;> cases n' <;>
    simp_all [mapLeaves, mapLeavesList, storage, cellOf, text, telling]

theorem rowValueShape_inj {r r' : GoalRow} (h : rowValueShape host r = rowValueShape host r') :
    r = r' := by
  have hvalues : r.values = r'.values := by
    refine List.map_injective_iff.mpr ?_ h
    intro p q hpq
    rw [Prod.mk.injEq, Prod.mk.injEq] at hpq
    exact Prod.ext hpq.1 (valueDigest_inj hsha hpq.2.2)
  cases r
  cases r'
  cases hvalues
  rfl

theorem semanticRowDigest_inj {r r' : GoalRow}
    (h : semanticRowDigest host r = semanticRowDigest host r') : r = r' := by
  have htold := token_inj hsha h
  apply rowValueShape_inj hsha
  have hread : ∀ shape : List (String × String × String),
      mapLeavesList telling (shape.map fun t => (.arr [text t.1, text t.2.1, text t.2.2] : Json)) =
        shape.map fun t => .arr [text t.1, text t.2.1, text t.2.2] := by
    intro shape
    induction shape with
    | nil => rfl
    | cons t shape ih =>
      rw [List.map_cons, mapLeavesList, ih]
      rfl
  simp only [mapLeaves, hread, Doc.arr.injEq] at htold
  refine List.map_injective_iff.mpr ?_ htold
  intro t t' ht
  simpa [text, Prod.ext_iff] using ht

end Digests

/-! ## Rows that are apart -/

theorem eq_of_perm_of_keys {vs vs' : List (String × GoalValue)} (hperm : vs.Perm vs')
    (hkeys : Dict.keys vs = Dict.keys vs') (hnodup : (Dict.keys vs).Nodup) : vs = vs' := by
  apply List.ext_getElem hperm.length_eq
  intro n hn hn'
  have hkey : vs[n].1 = vs'[n].1 := by
    have hget := congrArg (·[n]?) hkeys
    simpa [Dict.keys, hn, hn'] using hget
  have hmem : vs[n] ∈ vs' := hperm.mem_iff.mp (List.getElem_mem hn)
  have hnodup' : (Dict.keys vs').Nodup := hkeys ▸ hnodup
  have hget := Dict.get?_eq_some_iff hnodup' |>.mpr (show (vs[n].1, vs[n].2) ∈ vs' from hmem)
  have hget' := Dict.get?_eq_some_iff hnodup' |>.mpr
    (show (vs'[n].1, vs'[n].2) ∈ vs' from List.getElem_mem hn')
  rw [hkey, hget'] at hget
  exact Prod.ext hkey (Option.some.inj hget).symm

/-- The column of a row of an engine. -/
theorem goalValueFromRaw_ok {tag : String} {raw : Datum} {v : GoalValue}
    (h : goalValueFromRaw tag raw = .ok v) : v.tag = tag ∧ valAtomForClaimArg tag raw = .ok v.value := by
  unfold goalValueFromRaw at h
  split at h
  next normalized hatom =>
    split at h
    next =>
      cases h
      exact ⟨rfl, hatom⟩
    next => cases h
  next => cases h

theorem encode_of_value {tag tag' : String} {raw raw' : Datum} {v : GoalValue}
    (h : goalValueFromRaw tag raw = .ok v) (h' : goalValueFromRaw tag' raw' = .ok v) :
    tag = tag' ∧ encodeValueBytes tag raw = encodeValueBytes tag' raw' := by
  obtain ⟨htag, hcell⟩ := goalValueFromRaw_ok h
  obtain ⟨htag', hcell'⟩ := goalValueFromRaw_ok h'
  cases htag
  cases htag'
  obtain ⟨n, hn, hcell⟩ := valAtom_ok_iff.mp hcell
  obtain ⟨n', hn', hcell'⟩ := valAtom_ok_iff.mp hcell'
  have heq : n = n' := by
    apply (cellOf_eqv_iff hn hn').mp
    rw [hcell, hcell']
    exact Rules.Value.eqv_refl _
  exact ⟨rfl, encodeValueBytes_congr hn (heq ▸ hn')⟩

/-- The values that columns of an engine become. -/
def Columns (selections : List GoalSelection) (terms : List Term)
    (values : List (String × GoalValue)) : Prop :=
  List.Forall₂ (fun (p : GoalSelection × Term) v =>
    v.1 = p.1.aliasName ∧ goalValueFromRaw p.2.1 p.2.2 = .ok v.2) (selections.zip terms) values

theorem keys_of_columns {selections : List GoalSelection} {terms : List Term}
    {values : List (String × GoalValue)} (hlength : terms.length = selections.length)
    (h : Columns selections terms values) : Dict.keys values = selections.map (·.aliasName) := by
  unfold Columns at h
  induction selections generalizing terms values with
  | nil =>
    cases h
    rfl
  | cons s selections ih =>
    cases terms with
    | nil => cases hlength
    | cons t terms =>
      cases h with
      | cons hv hrest =>
        rw [Dict.keys, List.map_cons, List.map_cons, hv.1]
        exact congrArg _ (ih (Nat.succ.inj hlength) hrest)

theorem bytes_of_columns {selections : List GoalSelection} {terms terms' : List Term}
    {values : List (String × GoalValue)} (hlength : terms.length = selections.length)
    (hlength' : terms'.length = selections.length) (h : Columns selections terms values)
    (h' : Columns selections terms' values) : termsBytes terms = termsBytes terms' := by
  unfold Columns at h h'
  induction selections generalizing terms terms' values with
  | nil => rw [List.length_eq_zero_iff.mp hlength, List.length_eq_zero_iff.mp hlength']
  | cons s selections ih =>
    match terms, terms' with
    | (tag, raw) :: terms, (tag', raw') :: terms' =>
      cases h with
      | cons hv hrest =>
        cases h' with
        | cons hv' hrest' =>
          obtain ⟨rfl, hbytes⟩ := encode_of_value hv.2 hv'.2
          simp only at hbytes
          rw [termsBytes, termsBytes, ih (Nat.succ.inj hlength) (Nat.succ.inj hlength') hrest hrest']
          simp only [termBytes, hbytes]
    | [], _ => cases hlength
    | _ :: _, [] => cases hlength'

/-- A row of an engine becomes the values of its columns, sorted by their aliases. -/
theorem goalRow_ok {plan : GoalPlan} {terms : List Term} {r : GoalRow}
    (h : goalRow plan terms = .ok r) : terms.length = plan.selections.length ∧
      ∃ values, values.Perm r.values ∧ Columns plan.selections terms values := by
  unfold goalRow at h
  rw [bind_unit_ok_iff, require_ok_iff, decide_eq_true_eq] at h
  obtain ⟨hlength, h⟩ := h
  obtain ⟨values, hvalues, h⟩ := bind_ok_iff.mp h
  refine ⟨hlength, values, ?_, (mapOk_ok_iff.mp hvalues).imp ?_⟩
  · unfold GoalRow.make at h
    simp only at h
    split at h <;> [split at h <;> [split at h; skip]; skip] <;> cases h
    exact (List.perm_insertionSort _ _).symm
  · intro p v hv
    rw [bind_unit_ok_iff] at hv
    obtain ⟨w, hw, hv⟩ := bind_ok_iff.mp hv.2
    cases hv
    exact ⟨rfl, hw⟩

/-- Rows of an engine that become one row have one byte string. -/
theorem bytes_of_goalRow {plan : GoalPlan} {terms terms' : List Term} {r : GoalRow}
    (h : goalRow plan terms = .ok r) (h' : goalRow plan terms' = .ok r) :
    canonicalBytesTupV1 terms = canonicalBytesTupV1 terms' := by
  obtain ⟨hlength, values, hperm, hvalues⟩ := goalRow_ok h
  obtain ⟨hlength', values', hperm', hvalues'⟩ := goalRow_ok h'
  have hkeys := keys_of_columns hlength hvalues
  have heq : values = values' := eq_of_perm_of_keys (hperm.trans hperm'.symm)
    (hkeys.trans (keys_of_columns hlength' hvalues').symm) (hkeys ▸ plan.aliases_nodup)
  unfold canonicalBytesTupV1
  rw [bytes_of_columns hlength hlength' hvalues (heq ▸ hvalues'), hlength, hlength']

/-- The selected rows are all different. -/
theorem selected_nodup {plan : GoalPlan} {rows : List (List Term)} {selected : List GoalRow}
    (h : mapOk (goalRow plan) rows = .ok selected)
    (hapart : rows.Pairwise fun row row' => canonicalBytesTupV1 row ≠ canonicalBytesTupV1 row') :
    selected.Nodup := by
  induction rows generalizing selected with
  | nil =>
    cases h
    exact List.nodup_nil
  | cons row rows ih =>
    obtain ⟨r, hr, h⟩ := bind_ok_iff.mp h
    obtain ⟨rs, hrs, h⟩ := bind_ok_iff.mp h
    cases h
    rw [List.pairwise_cons] at hapart
    refine List.nodup_cons.mpr ⟨fun hmem => ?_, ih hrs hapart.2⟩
    obtain ⟨row', hrow', hr'⟩ := mem_of_mapOk hrs hmem
    exact hapart.1 row' hrow' (bytes_of_goalRow hr hr')

/-! ## Expectations -/

section Expectations

variable {host : Host} {absence : Absence} {looked selected : List GoalRow} {e : GoalExpectation}
  {o : ExpectationOutcome}

theorem rowMatches_iff {row expected : GoalRow} :
    rowMatches row expected = true ↔ ∀ p ∈ expected.values, p ∈ row.values := by
  simp only [rowMatches, List.all_eq_true, decide_eq_true_eq, Dict.get?_eq_some_iff row.nodup]

theorem expectationOutcome_ok {status : ExpectationStatus} {matched : List String} {code : String}
    (h : expectationOutcome e status matched code = .ok o) :
    o = ⟨e.expectationId, e.kind, status, matched, code⟩ := by
  unfold expectationOutcome demand at h
  simp only [bind_unit_ok_iff, Except.ok.injEq] at h
  exact h.2.2.2.symm

/-- The outcome of a test tells what the test does. -/
theorem tells_of_verdict {passes : Bool} {code : String} (h : verdict e passes code = .ok o)
    (hpasses : passes = true ↔ e.Holds selected) : o.Tells selected e := by
  unfold verdict at h
  split at h
  next htrue =>
    have hholds := hpasses.mp htrue
    cases expectationOutcome_ok h
    exact ⟨rfl, fun _ => iff_of_true rfl hholds, fun _ => iff_of_false (by simp) (not_not.mpr hholds)⟩
  next hfalse =>
    have hnot := mt hpasses.mpr hfalse
    cases expectationOutcome_ok h
    exact ⟨rfl, fun _ => iff_of_false (by simp) hnot, fun _ => iff_of_true rfl hnot⟩

/-- **The outcome of an expectation tells whether it holds of the selected rows**, if an expected row
is looked for among all of them. -/
theorem outcome_tells (hsha : Function.Injective host.sha256) (hnodup : selected.Nodup)
    (hlooked : e.kind = "contains_row" → looked = selected)
    (h : evaluateExpectation host absence looked selected e = .ok o) : o.Tells selected e := by
  cases e with
  | containsRow i expected =>
    cases hlooked rfl
    have hmatched : ((looked.filter (rowMatches · expected)).map
        (semanticRowDigest host)).insertionSort (· ≤ ·) ≠ [] ↔
          (GoalExpectation.containsRow i expected).Holds looked := by
      rw [← List.length_pos_iff, List.length_insertionSort, List.length_map, List.length_pos_iff_exists_mem]
      simp only [List.mem_filter, rowMatches_iff, GoalExpectation.Holds]
    simp only [evaluateExpectation] at h
    split at h
    next hempty =>
      have hnot := mt hmatched.mpr (not_not.mpr (List.isEmpty_iff.mp hempty))
      cases expectationOutcome_ok h
      exact ⟨rfl, fun _ => iff_of_false (by simp) hnot, fun _ => iff_of_true rfl hnot⟩
    next hsome =>
      have hholds := hmatched.mp (mt List.isEmpty_iff.mpr hsome)
      cases expectationOutcome_ok h
      exact ⟨rfl, fun _ => iff_of_true rfl hholds, fun _ => iff_of_false (by simp) (not_not.mpr hholds)⟩
  | exactLocalAbsence i target =>
    obtain ⟨⟨status, code⟩, -, h⟩ := bind_ok_iff.mp h
    cases expectationOutcome_ok h
    exact ⟨rfl, fun hkind => absurd rfl hkind, fun hkind => absurd rfl hkind⟩
  | existence i expected =>
    refine tells_of_verdict h ?_
    cases expected <;> simp [GoalExpectation.Holds]
  | countEq i expectedCount =>
    refine tells_of_verdict h ?_
    rw [decide_eq_true_eq, GoalExpectation.Holds, List.toFinset_card_of_nodup hnodup]
  | setEquals i rows =>
    refine tells_of_verdict h ?_
    have hmem : ∀ (r : GoalRow) (rows : List GoalRow),
        rowValueShape host r ∈ rows.map (rowValueShape host) ↔ r ∈ rows :=
      fun r rows => List.mem_map_of_injective fun _ _ => rowValueShape_inj hsha
    simp only [Bool.and_eq_true, List.all_map, List.all_eq_true, Function.comp_apply,
      decide_eq_true_eq, hmem, GoalExpectation.Holds]
    exact ⟨fun h r => ⟨h.1 r, h.2 r⟩, fun h => ⟨fun r => (h r).mp, fun r => (h r).mpr⟩⟩

end Expectations

/-! ## Results -/

section Results

variable {host : Host} {plan : GoalPlan} {absence : Absence} {looked selected : List GoalRow}
  {result : GoalResult}

theorem goalResult_ok {mode : ResultMode} {rows : List GoalRow} {existsValue : Option Bool}
    {countValue : Option Nat} {outcomes : List ExpectationOutcome}
    (h : goalResult host mode rows existsValue countValue outcomes = .ok result) :
    result.rows.Perm rows ∧ result.outcomes = outcomes := by
  unfold goalResult demand at h
  simp only [bind_unit_ok_iff, Except.ok.injEq] at h
  obtain ⟨-, -, -, -, rfl⟩ := h
  exact ⟨List.perm_insertionSort _ _, rfl⟩

/-- The result of selected rows: what is kept, and what is said of the expectations. -/
structure GoalResult.Of (plan : GoalPlan) (selected : List GoalRow) (result : GoalResult) : Prop where
  mem_iff : ∀ r, r ∈ result.rows ↔ r ∈ keptRows plan.resultMode selected
  outcomes : List.Forall₂ (ExpectationOutcome.Tells selected) plan.expectations result.outcomes

theorem resultOf_ok (hsha : Function.Injective host.sha256) (hnodup : selected.Nodup)
    (hlooked : ∀ e ∈ plan.expectations, e.kind = "contains_row" → looked = selected)
    (h : resultOf host plan absence looked selected = .ok result) : result.Of plan selected := by
  obtain ⟨outcomes, houtcomes, h⟩ := bind_ok_iff.mp h
  obtain ⟨hperm, rfl⟩ := goalResult_ok h
  refine ⟨fun r => hperm.mem_iff, ?_⟩
  have hboth := (List.forall₂_and_left _ _).mpr ⟨hlooked, mapOk_ok_iff.mp houtcomes⟩
  exact hboth.imp fun e o h => outcome_tells hsha hnodup h.1 h.2

/-- An evaluated side has a result of the rows that are selected. -/
theorem evaluateSide_ok {path : RunPath} {side : SideInput} (hsha : Function.Injective host.sha256)
    (hadmitted : path = .live → plan.admitted = true)
    (h : evaluateSide host path plan side = .ok result) : result.Of plan (side.selected plan) := by
  have hselected : ∀ {rows : List GoalRow}, mapOk (goalRow plan) side.rows.rows = .ok rows →
      side.selected plan = rows ∧ rows.Nodup := by
    intro rows hrows
    refine ⟨?_, selected_nodup hrows side.rows.apart⟩
    rw [SideInput.selected, hrows]
    rfl
  cases path with
  | live =>
    obtain ⟨rows, hrows, h⟩ := bind_ok_iff.mp h
    obtain ⟨hrows, hnodup⟩ := hselected hrows
    rw [hrows]
    refine resultOf_ok hsha hnodup ?_ h
    intro e he hkind
    have hmode : plan.resultMode ≠ .existence := by
      intro hmode
      have hall := hadmitted rfl
      rw [GoalPlan.admitted, hmode] at hall
      simp only [ne_eq, not_true_eq_false, decide_false, Bool.false_or, List.all_eq_true] at hall
      simpa [hkind] using hall e he
    -- what is not a witness keeps all rows
    unfold keptRows
    split
    next h => exact absurd h hmode
    all_goals rfl
  | captured =>
    obtain ⟨rows, hrows, h⟩ := bind_ok_iff.mp h
    obtain ⟨hrows, hnodup⟩ := hselected hrows
    rw [bind_unit_ok_iff] at h
    rw [hrows]
    exact resultOf_ok hsha hnodup (fun _ _ _ => rfl) h.2

end Results

/-! ## Row sets -/

section RowSets

variable {host : Host} {left right : GoalResult}

variable (left right) in
/-- The row sets of two results are compared without fail. -/
theorem exists_compareRows (hsha : Function.Injective host.sha256) (code : String) :
    ∃ c, compareRows host code left right = .ok c ∧
      (c.equivalent = true ↔ ∀ r, r ∈ left.rows ↔ r ∈ right.rows) ∧
      (∀ d, d ∈ c.shared ↔ ∃ r ∈ left.rows, r ∈ right.rows ∧ semanticRowDigest host r = d) ∧
      (∀ d, d ∈ c.leftOnly ↔ ∃ r ∈ left.rows, r ∉ right.rows ∧ semanticRowDigest host r = d) ∧
      ∀ d, d ∈ c.rightOnly ↔ ∃ r ∈ right.rows, r ∉ left.rows ∧ semanticRowDigest host r = d := by
  have hmem : ∀ (r : GoalRow) (rows : List GoalRow),
      semanticRowDigest host r ∈ rows.map (semanticRowDigest host) ↔ r ∈ rows :=
    fun r rows => List.mem_map_of_injective fun _ _ => semanticRowDigest_inj hsha
  have hfilter : ∀ (rows others : List GoalRow) (d : String),
      (d ∈ canonicalStrings ((rows.map (semanticRowDigest host)).filter
        (· ∈ others.map (semanticRowDigest host))) ↔
          ∃ r ∈ rows, r ∈ others ∧ semanticRowDigest host r = d) ∧
      (d ∈ canonicalStrings ((rows.map (semanticRowDigest host)).filter
        (· ∉ others.map (semanticRowDigest host))) ↔
          ∃ r ∈ rows, r ∉ others ∧ semanticRowDigest host r = d) := by
    intro rows others d
    constructor <;>
    · simp only [mem_canonicalStrings, List.mem_filter, List.mem_map (l := rows), decide_eq_true_eq]
      constructor
      · rintro ⟨⟨r, hr, rfl⟩, h⟩
        exact ⟨r, hr, by simpa only [hmem] using h, rfl⟩
      · rintro ⟨r, hr, h, rfl⟩
        exact ⟨⟨r, hr, rfl⟩, by simpa only [hmem] using h⟩
  have hempty : ∀ rows others : List GoalRow,
      (canonicalStrings ((rows.map (semanticRowDigest host)).filter
        (· ∉ others.map (semanticRowDigest host)))).isEmpty = true ↔ ∀ r ∈ rows, r ∈ others := by
    intro rows others
    rw [List.isEmpty_iff, List.eq_nil_iff_forall_not_mem]
    simp only [(hfilter rows others _).2, not_exists, not_and]
    exact ⟨fun h r hr => by_contra fun hnot => h _ r hr hnot rfl, fun h _ r hr hnot => (hnot (h r hr)).elim⟩
  have hequivalent : ((left.rows.map (semanticRowDigest host)).all
      (· ∈ right.rows.map (semanticRowDigest host)) && (right.rows.map (semanticRowDigest host)).all
      (· ∈ left.rows.map (semanticRowDigest host))) = true ↔ ∀ r, r ∈ left.rows ↔ r ∈ right.rows := by
    simp only [Bool.and_eq_true, List.all_map, List.all_eq_true, Function.comp_apply,
      decide_eq_true_eq, hmem]
    exact ⟨fun h r => ⟨h.1 r, h.2 r⟩, fun h => ⟨fun r => (h r).mp, fun r => (h r).mpr⟩⟩
  refine ⟨rowSets host left right, ?_, hequivalent, fun d => (hfilter _ _ d).1,
    fun d => (hfilter _ _ d).2, fun d => (hfilter _ _ d).2⟩
  -- the checks: the sets are in order and apart, and the relation is what they say
  unfold compareRows
  rw [require_of_true, ok_bind]
  simp only [RowComparison.checks, rowSets, Bool.and_eq_true, List.all_cons, List.all_nil, canonicalStrings_idem,
    decide_true, and_true, true_and, List.all_eq_true, beq_iff_eq]
  refine ⟨⟨?_, ?_⟩, ?_⟩
  · refine fun d hd => decide_eq_true fun hd' => ?_
    obtain ⟨r, -, hr, rfl⟩ := (hfilter _ _ d).1.mp hd
    obtain ⟨r', -, hr', h⟩ := (hfilter _ _ _).2.mp hd'
    exact hr' (semanticRowDigest_inj hsha h ▸ hr)
  · refine fun d hd => decide_eq_true fun hd' => ?_
    obtain ⟨r, hr, -, rfl⟩ := (hfilter _ _ d).1.mp hd
    obtain ⟨r', -, hr', h⟩ := (hfilter _ _ _).2.mp hd'
    exact hr' (semanticRowDigest_inj hsha h ▸ hr)
  · rw [Bool.eq_iff_iff, hequivalent, Bool.and_eq_true, hempty, hempty]
    exact ⟨fun h => ⟨fun r => (h r).mp, fun r => (h r).mpr⟩, fun h r => ⟨h.1 r, h.2 r⟩⟩

/-- **Results of selected rows are compared as these rows are**, exactly if what is compared are all of
them, or both sides together select at most one. -/
theorem tells_iff (hsha : Function.Injective host.sha256) {mode : ResultMode} {code : String}
    {A B : List GoalRow} (hleft : ∀ r, r ∈ left.rows ↔ r ∈ keptRows mode A)
    (hright : ∀ r, r ∈ right.rows ↔ r ∈ keptRows mode B) :
    (∃ c, compareRows host code left right = .ok c ∧ c.Tells host mode A B) ↔
      (mode = .existence → AtMostOne (A ++ B)) := by
  obtain ⟨c, hc, hequivalent, hshared, hleftOnly, hrightOnly⟩ :=
    exists_compareRows left right hsha code
  simp only [hc, Except.ok.injEq, exists_eq_left']
  constructor
  · intro htells hmode
    subst hmode
    -- every selected row has a digest in one of the sets, so it is the witness
    have hkeptLeft : ∀ r ∈ A, r ∈ left.rows := by
      intro r hr
      by_cases hr' : r ∈ B
      · obtain ⟨w, hw, -, h⟩ := (hshared _).mp ((htells.shared _).mpr ⟨r, hr, hr', rfl⟩)
        exact semanticRowDigest_inj hsha h ▸ hw
      · obtain ⟨w, hw, -, h⟩ := (hleftOnly _).mp ((htells.leftOnly _).mpr ⟨r, hr, hr', rfl⟩)
        exact semanticRowDigest_inj hsha h ▸ hw
    have hkeptRight : ∀ r ∈ B, r ∈ right.rows := by
      intro r hr
      by_cases hr' : r ∈ A
      · obtain ⟨w, -, hw, h⟩ := (hshared _).mp ((htells.shared _).mpr ⟨r, hr', hr, rfl⟩)
        exact semanticRowDigest_inj hsha h ▸ hw
      · obtain ⟨w, hw, -, h⟩ := (hrightOnly _).mp ((htells.rightOnly _).mpr ⟨r, hr, hr', rfl⟩)
        exact semanticRowDigest_inj hsha h ▸ hw
    have hone : ∀ {rows : List GoalRow} {r r' : GoalRow}, r ∈ keptRows .existence rows →
        r' ∈ keptRows .existence rows → r = r' := by
      intro rows r r' hr hr'
      cases rows with
      | nil => cases hr
      | cons w rows =>
        rw [keptRows, List.take_succ_cons, List.take_zero, List.mem_singleton] at hr hr'
        exact hr.trans hr'.symm
    have hsame : A ≠ [] → B ≠ [] → ∀ r, r ∈ left.rows ↔ r ∈ right.rows := by
      intro hA hB
      rw [← hequivalent, htells.equivalent, Equivalent, if_pos rfl]
      exact iff_of_false hA hB
    have hcross : ∀ r ∈ A, ∀ r' ∈ B, r = r' := by
      intro r hr r' hr'
      have hmem := (hsame (List.ne_nil_of_mem hr) (List.ne_nil_of_mem hr') r).mp (hkeptLeft r hr)
      exact hone ((hright r).mp hmem) ((hright r').mp (hkeptRight r' hr'))
    intro r hr r' hr'
    rcases List.mem_append.mp hr with hr | hr <;> rcases List.mem_append.mp hr' with hr' | hr'
    · exact hone ((hleft r).mp (hkeptLeft r hr)) ((hleft r').mp (hkeptLeft r' hr'))
    · exact hcross r hr r' hr'
    · exact (hcross r' hr' r hr).symm
    · exact hone ((hright r).mp (hkeptRight r hr)) ((hright r').mp (hkeptRight r' hr'))
  · intro hone
    have hkept : ∀ {rows : List GoalRow}, (mode = .existence → AtMostOne rows) →
        ∀ r, r ∈ keptRows mode rows ↔ r ∈ rows := by
      intro rows hone r
      unfold keptRows
      split
      next =>
        cases rows with
        | nil => simp
        | cons w rows =>
          rw [List.take_succ_cons, List.take_zero, List.mem_singleton]
          exact ⟨fun h => h ▸ List.mem_cons_self, fun h => hone rfl r h w List.mem_cons_self⟩
      all_goals rfl
    have hA : ∀ r, r ∈ left.rows ↔ r ∈ A := fun r => (hleft r).trans <| hkept (fun hmode r hr r' hr' =>
      hone hmode r (List.mem_append_left B hr) r' (List.mem_append_left B hr')) r
    have hB : ∀ r, r ∈ right.rows ↔ r ∈ B := fun r => (hright r).trans <| hkept (fun hmode r hr r' hr' =>
      hone hmode r (List.mem_append_right A hr) r' (List.mem_append_right A hr')) r
    simp only [hA, hB] at hequivalent hshared hleftOnly hrightOnly
    refine ⟨hequivalent.trans ?_, hshared, hleftOnly, hrightOnly⟩
    unfold Equivalent
    split
    next hmode =>
      constructor
      · intro h
        simp only [List.eq_nil_iff_forall_not_mem, h]
      · intro h r
        have hne := not_congr h
        constructor
        · intro hr
          obtain ⟨r', hr'⟩ := List.exists_mem_of_ne_nil B (hne.mp (List.ne_nil_of_mem hr))
          exact hone hmode r (List.mem_append_left B hr) r' (List.mem_append_right A hr') ▸ hr'
        · intro hr
          obtain ⟨r', hr'⟩ := List.exists_mem_of_ne_nil A (hne.mpr (List.ne_nil_of_mem hr))
          exact hone hmode r (List.mem_append_right A hr) r' (List.mem_append_left B hr') ▸ hr'
    next => rfl

end RowSets

/-! ## A run that asks for existence -/

/-- A plan that asks whether there is a row of one boolean. -/
def existencePlan : GoalPlan where
  resultMode := .existence
  selections := [⟨"flag", "bool"⟩]
  scenarioRequestDigest := none
  expectations := []
  selections_ne := by decide
  aliases_nodup := by decide
  ids_nodup := by decide
  expectations_valid := by simp

/-- A side that selects the row of `flag`. -/
def flagSide (flag : Bool) : SideInput where
  rows :=
    { rows := [[("bool", .leaf (.bool flag))]]
      encoded := by
        intro row hrow
        rw [List.mem_singleton.mp hrow]
        exact ⟨_, rfl⟩
      apart := List.pairwise_singleton _ _ }
  absence := fun _ => .ok (.underdetermined, "GOAL_EXACT_LOCAL_CLOSURE_UNRESOLVED")

/-- Effectively `True` is selected, and by the candidate `flag`. -/
def flagRun (flag : Bool) : RunInput where
  path := .live
  plan := existencePlan
  baseline := flagSide true
  effective := flagSide true
  candidate := some ⟨existencePlan, flagSide flag⟩
  admitted := fun _ => by decide
  comparable := by
    rintro c ⟨⟩
    exact ⟨rfl, rfl, rfl, rfl⟩

def flagRow (flag : Bool) : GoalRow where
  values := [("flag", ⟨"bool", .bool flag, by cases flag <;> decide⟩)]
  values_ne := by simp
  alias_ne := by simp
  nodup := List.nodup_singleton _
  sorted := List.pairwise_singleton _ _

theorem selected_flagSide (flag : Bool) : (flagSide flag).selected existencePlan = [flagRow flag] := by
  cases flag <;> rfl

def flagResult (flag : Bool) : GoalResult := ⟨.existence, [flagRow flag], some true, none, []⟩

theorem evaluateSide_flagSide (host : Host) (flag : Bool) :
    evaluateSide host .live existencePlan (flagSide flag) = .ok (flagResult flag) := by
  have hrows : mapOk (goalRow existencePlan) (flagSide flag).rows.rows = .ok [flagRow flag] := by
    cases flag <;> rfl
  simp only [evaluateSide, goalResultFromRows, hrows, ok_bind]
  rfl

theorem evaluateRun_flagRun (host : Host) (flag : Bool) : evaluateRun host (flagRun flag) =
    .ok ⟨existencePlan, flagResult true, flagResult true, some (flagResult flag)⟩ := by
  simp only [evaluateRun, flagRun, evaluateSide_flagSide, ok_bind]

/-! ## A run that counts -/

/-- A side that selects both rows. -/
def bothFlags : SideInput where
  rows :=
    { rows := [[("bool", .leaf (.bool true))], [("bool", .leaf (.bool false))]]
      encoded := by
        intro row hrow
        simp only [List.mem_cons, List.not_mem_nil, or_false] at hrow
        obtain rfl | rfl := hrow
        · exact ⟨_, rfl⟩
        · exact ⟨_, rfl⟩
      apart := by
        refine List.pairwise_pair.mpr fun h => ?_
        cases h }
  absence := fun _ => .ok (.underdetermined, "GOAL_EXACT_LOCAL_CLOSURE_UNRESOLVED")

/-- A plan that counts the rows in a world and under a scenario. -/
def countPlan (expectations : List GoalExpectation) (hids : (expectations.map (·.expectationId)).Nodup)
    (hvalid : ∀ e ∈ expectations, e.validAgainst [⟨"flag", "bool"⟩] = true) : GoalPlan where
  resultMode := .count
  selections := [⟨"flag", "bool"⟩]
  scenarioRequestDigest := some "sha256:request"
  expectations := expectations
  selections_ne := by decide
  aliases_nodup := by decide
  ids_nodup := hids
  expectations_valid := hvalid

/-- The row of `True` is expected, and two rows. The scenario adds the row of `False`; by the candidate
it is the only one. -/
def countRun : RunInput where
  path := .captured
  plan := countPlan [.containsRow "some-true" (flagRow true), .countEq "two" 2] (by decide)
    (by simp [GoalExpectation.validAgainst, validExpectedRow, flagRow])
  baseline := flagSide true
  effective := bothFlags
  candidate := some ⟨countPlan [] List.nodup_nil (by simp), flagSide false⟩
  admitted := fun h => nomatch h
  comparable := by
    rintro c ⟨⟩
    exact ⟨rfl, rfl, rfl, rfl⟩

section Counted

variable {host : Host} {plan : GoalPlan} {side : SideInput} {rows : List GoalRow}
  {outcomes : List ExpectationOutcome}

/-- The rows of a side are counted, whatever is said of them. -/
theorem exists_countSide (hsha : Function.Injective host.sha256) (hmode : plan.resultMode = .count)
    (hrows : mapOk (goalRow plan) side.rows.rows = .ok rows)
    (houtcomes : mapOk (evaluateExpectation host side.absence rows rows) plan.expectations =
      .ok outcomes)
    (hids : (outcomes.map (·.expectationId)).Nodup)
    (hmatched : ∀ o ∈ outcomes, ∀ d ∈ o.matched, ∃ r ∈ rows, semanticRowDigest host r = d) :
    ∃ result, evaluateSide host .captured plan side = .ok result := by
  have hperm := List.perm_insertionSort
    (fun r r' => semanticRowDigest host r ≤ semanticRowDigest host r') rows
  have hdigests : (rows.map (semanticRowDigest host)).Nodup :=
    (selected_nodup hrows side.rows.apart).map fun _ _ h => semanticRowDigest_inj hsha h
  have hsorted := (hperm.map (semanticRowDigest host)).nodup_iff.mpr hdigests
  have hpresent : (outcomes.all fun o => o.matched.all (· ∈ (rows.insertionSort fun r r' =>
      semanticRowDigest host r ≤ semanticRowDigest host r').map (semanticRowDigest host))) = true := by
    simpa [(hperm.map _).mem_iff] using hmatched
  simp only [evaluateSide, goalResultFromEngineOutput, resultOf, hrows, houtcomes, hmode, keptRows,
    goalResult, demand, require, validateModeValues, hdigests, hsorted, hids, hpresent, ok_bind]
  simp [ok_bind]

theorem exists_countOutcomes (absence : Absence)
    (hrows : rows.filter (rowMatches · (flagRow true)) = [flagRow true]) :
    ∃ outcomes, mapOk (evaluateExpectation host absence rows rows) countRun.plan.expectations =
      .ok outcomes ∧ (outcomes.map (·.expectationId)).Nodup ∧
      ∀ o ∈ outcomes, ∀ d ∈ o.matched, d = semanticRowDigest host (flagRow true) := by
  by_cases hlength : rows.length = 2
  · simp [countRun, countPlan, mapOk, evaluateExpectation, verdict, hrows, hlength, require, demand,
      expectationOutcome, GoalExpectation.expectationId, GoalExpectation.kind, ok_bind]
  · simp [countRun, countPlan, mapOk, evaluateExpectation, verdict, hrows, hlength, require, demand,
      expectationOutcome, GoalExpectation.expectationId, GoalExpectation.kind, ok_bind]

theorem exists_countRun (hsha : Function.Injective host.sha256) :
    ∃ run, evaluateRun host countRun = .ok run := by
  -- the row of `True` is on both sides
  have hside : ∀ (side : SideInput) (rows : List GoalRow), mapOk (goalRow countRun.plan) side.rows.rows =
      .ok rows → rows.filter (rowMatches · (flagRow true)) = [flagRow true] →
      ∃ result, evaluateSide host .captured countRun.plan side = .ok result := by
    intro side rows hrows hfilter
    obtain ⟨outcomes, houtcomes, hids, hmatched⟩ := exists_countOutcomes side.absence hfilter
    have hmem : flagRow true ∈ rows := by
      have h := List.mem_singleton_self (flagRow true)
      rw [← hfilter] at h
      exact List.mem_of_mem_filter h
    exact exists_countSide hsha rfl hrows houtcomes hids fun o ho d hd =>
      ⟨_, hmem, (hmatched o ho d hd).symm⟩
  obtain ⟨b, hb⟩ := hside (flagSide true) [flagRow true] rfl (by decide)
  obtain ⟨e, he⟩ := hside bothFlags [flagRow true, flagRow false] rfl (by decide)
  obtain ⟨c, hc⟩ : ∃ c, evaluateSide host .captured (countPlan [] List.nodup_nil (by simp))
      (flagSide false) = .ok c :=
    exists_countSide hsha rfl (show _ = Except.ok [flagRow false] from rfl)
      (show _ = Except.ok [] from rfl) (by simp) (by simp)
  exact ⟨⟨countRun.plan, b, e, some c⟩, by
    simp only [evaluateRun, countRun] at hb he ⊢
    simp only [hb, he, hc, ok_bind]⟩

end Counted

/-! ## Runs -/

/-- **Outcomes and comparisons of a run tell the truth about the rows that are selected exactly if,
where only existence is asked for, sides that are compared select at most one row together.** -/
theorem run_told_iff {host : Host} (hsha : Function.Injective host.sha256) {i : RunInput}
    {run : EvaluationRun} (h : evaluateRun host i = .ok run) : i.Told host run ↔ i.Comparable := by
  obtain ⟨baseline, hbaseline, h⟩ := bind_ok_iff.mp h
  obtain ⟨effective, heffective, h⟩ := bind_ok_iff.mp h
  have hb := evaluateSide_ok hsha i.admitted hbaseline
  have he := evaluateSide_ok hsha i.admitted heffective
  obtain ⟨candidateEffective, rfl, hvariants⟩ : ∃ c, run = ⟨i.plan, baseline, effective, c⟩ ∧
      ∀ c' ∈ i.candidate, ∃ r, c = some r ∧
        ∀ x, x ∈ r.rows ↔ x ∈ keptRows i.plan.resultMode (c'.side.selected c'.plan) := by
    cases hcandidate : i.candidate with
    | none =>
      rw [hcandidate] at h
      cases h
      exact ⟨none, rfl, fun c' hc' => nomatch hc'⟩
    | some c =>
      rw [hcandidate] at h
      obtain ⟨r, hr, h⟩ := bind_ok_iff.mp h
      cases h
      obtain ⟨hmode, -, -, hnone⟩ := i.comparable c hcandidate
      have hadmitted : i.path = .live → c.plan.admitted = true := fun _ => by
        simp [GoalPlan.admitted, hnone]
      refine ⟨some r, rfl, ?_⟩
      rintro c' ⟨⟩
      exact ⟨r, rfl, hmode ▸ (evaluateSide_ok hsha hadmitted hr).mem_iff⟩
  constructor
  · intro htold
    refine ⟨fun hmode c hc => ?_, fun hmode hscenario => ?_⟩
    · obtain ⟨r, rfl, hr⟩ := hvariants c hc
      exact (tells_iff hsha he.mem_iff hr).mp (htold.variants c hc) hmode
    · obtain ⟨digest, hdigest⟩ := Option.isSome_iff_exists.mp hscenario
      have hdiff := htold.scenario hscenario
      simp only [diffScenarioRun, hdigest] at hdiff
      exact (tells_iff hsha hb.mem_iff he.mem_iff).mp hdiff hmode
  · intro hcomparable
    refine ⟨hb.outcomes, he.outcomes, fun c hc => ?_, fun hscenario => ?_⟩
    · obtain ⟨r, rfl, hr⟩ := hvariants c hc
      exact (tells_iff hsha he.mem_iff hr).mpr fun hmode => hcomparable.variants hmode c hc
    · obtain ⟨digest, hdigest⟩ := Option.isSome_iff_exists.mp hscenario
      simp only [diffScenarioRun, hdigest]
      exact (tells_iff hsha hb.mem_iff he.mem_iff).mpr fun hmode => hcomparable.scenario hmode hscenario

/-- What the run that counts says of its expectations and of its sides is true. -/
theorem countRun_told : ∃ run, evaluateRun ⟨id⟩ countRun = .ok run ∧ countRun.Told ⟨id⟩ run := by
  obtain ⟨run, hrun⟩ : ∃ run, evaluateRun ⟨id⟩ countRun = .ok run :=
    exists_countRun Function.injective_id
  exact ⟨run, hrun, (run_told_iff Function.injective_id hrun).mpr
    ⟨fun hmode => absurd hmode (by decide), fun hmode => absurd hmode (by decide)⟩⟩

/-- There is a row on both sides, but the comparison says that they differ. -/
theorem flagRun_differs : ∃ run comparison, evaluateRun ⟨id⟩ (flagRun false) = .ok run ∧
    comparePolicyVariants ⟨id⟩ run = .ok comparison ∧ comparison.equivalent = false ∧
    Equivalent existencePlan.resultMode ((flagSide true).selected existencePlan)
      ((flagSide false).selected existencePlan) := by
  have hsha : Function.Injective (⟨id⟩ : Host).sha256 := Function.injective_id
  obtain ⟨comparison, hcomparison, hequivalent, -⟩ := exists_compareRows (flagResult true)
    (flagResult false) hsha "EVALUATION_RUN_V1_COMPARISON_INVALID"
  refine ⟨_, comparison, evaluateRun_flagRun ⟨id⟩ false, hcomparison, ?_, ?_⟩
  · rw [Bool.eq_false_iff, ne_eq, hequivalent]
    intro hsame
    have hrow := (hsame (flagRow true)).mp (List.mem_singleton_self _)
    exact absurd (List.mem_singleton.mp hrow) (by decide)
  · rw [selected_flagSide, selected_flagSide]
    simp [Equivalent, existencePlan]

end FactGraph.Goal
