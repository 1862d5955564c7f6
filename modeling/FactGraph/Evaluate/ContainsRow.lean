import FactGraph.Evaluate.Typed

/-!
# Live and captured expectations

An expectation is evaluated on displayed terms, which are made canonical again, or on captured values,
which are stored with their tags; what it compares with has gone through a third normalisation. All
three are of typed values, so the two evaluations have the same outcomes, and **an expectation is
satisfied if and only if some row displays the typed values that it names**
(`contains_row_expectations_agree`).
-/

namespace FactGraph.Evaluate

open Protocol Codec Store Check Entity

/-! ## Values -/

section Values

variable {host : Host Val} {selections : List (String × String)} {row : EvaluateRow}
  {captured : ProjectionRow} {e : ResolvedExpectationValue}

/-- A row, captured value by value. -/
theorem captureRow_ok (h : captureRow selections row = .ok captured) :
    captured.rowId = row.rowId ∧ ∀ s ∈ selections, ∃ v,
      Dict.get? captured.values s.1 = some v ∧
        projectionValue s.2 (Dict.get? row.bindings s.1) = .ok v := by
  unfold captureRow at h
  obtain ⟨values, hvalues, h⟩ := bind_ok_iff.mp h
  unfold projectionRow at h
  split at h
  next hwell =>
    cases h
    refine ⟨rfl, ?_⟩
    intro s hs
    obtain ⟨p, hp, hstep⟩ := image_of_mapOk hvalues hs
    obtain ⟨v, hv, hp'⟩ := bind_ok_iff.mp hstep
    cases hp'
    exact ⟨v, (Dict.get?_eq_some_iff hwell.2.2.2).mpr hp, hv⟩
  next => cases h

/-- The typed value that a compiled expectation has at an alias. -/
def ResolvedExpectationValue.typed (e : ResolvedExpectationValue) : Option Typed :=
  storedTyped e.valueType (View.datumOf e.normalized)

/-- What compiling says of an expected value: it has the cell and the digest of a typed value. -/
def ResolvedExpectationValue.Exact (host : Host Val) (e : ResolvedExpectationValue) : Prop :=
  ∃ n, Means host e.valueType n e.normalized e.valueDigest

/-- A row has the typed value that is expected of it. -/
def EvaluateRow.has (row : EvaluateRow) (e : ResolvedExpectationValue) : Bool :=
  decide (row.typed e.aliasName = e.typed)

/-- **The live and the captured comparison of one value** both compare typed values. -/
theorem value_matches (he : e.Exact host) (hs : (e.aliasName, e.valueType) ∈ selections)
    (hrow : captureRow selections row = .ok captured)
    (hfits : ∀ v ∈ captured.values, (utf8 (storedText v.2.value)).length ≤ maxRunBundleBytes) :
    (∃ p, liveValue host row e = .ok p ∧
        (p.1.eqv e.normalized && decide (p.2 = e.valueDigest)) = row.has e) ∧
      capturedValueMatches host (Dict.get? captured.values e.aliasName) e = .ok (row.has e) := by
  obtain ⟨n, hn⟩ := he
  obtain ⟨v, hget, hvalue⟩ := (captureRow_ok hrow).2 _ hs
  obtain ⟨term, hterm, htag, hdatum, hdisplayed⟩ := projectionValue_ok hvalue
  have hsize := hfits _ (Dict.mem_of_get? hget)
  obtain ⟨m, digest, hstored, hdigest, hm⟩ := v.exists_digest host hsize
  simp only at htag hdisplayed hterm hget
  rw [htag] at hstored hm
  have hhas : row.has e = decide (m = n) := by
    have hrowTyped : row.typed e.aliasName = some (e.valueType, m) := by
      rw [EvaluateRow.typed, hterm, Option.bind_some, hdisplayed, hstored]
    rw [EvaluateRow.has, hrowTyped, ResolvedExpectationValue.typed, hn.stored]
    simp
  constructor
  · obtain ⟨p, hp, hmeans⟩ := exists_canonicalValue host hstored (hm.cell_eq ▸ hsize)
    refine ⟨p, ?_, by rw [hhas, hmeans.matches_iff hn]⟩
    simp only [liveValue, hterm, hdatum, hp, orExpectation]
  · simp only [capturedValueMatches, hget, hdigest, ok_bind, htag, decide_true, Bool.true_and,
      hm.matches_iff hn, hhas]

end Values

/-! ## Rows -/

section Rows

variable {host : Host Val} {selections : List (String × String)} {row : EvaluateRow}
  {captured : ProjectionRow} {values : List ResolvedExpectationValue}

theorem rowMatches_of {q : ResolvedExpectationValue → Bool}
    (h : ∀ e ∈ values, ∃ p, liveValue host row e = .ok p ∧
      (p.1.eqv e.normalized && decide (p.2 = e.valueDigest)) = q e) :
    rowMatches host row values = .ok (values.all q) := by
  induction values with
  | nil => rfl
  | cons e values ih =>
    obtain ⟨p, hp, hq⟩ := h e List.mem_cons_self
    unfold rowMatches
    rw [hp, ok_bind, hq, List.all_cons, ih fun x hx => h x (List.mem_cons_of_mem _ hx)]
    cases q e <;> rfl

theorem capturedValuesMatch_of {rowValues : List (String × RunValue)}
    {q : ResolvedExpectationValue → Bool}
    (h : ∀ e ∈ values, capturedValueMatches host (Dict.get? rowValues e.aliasName) e = .ok (q e)) :
    capturedValuesMatch host rowValues values = .ok (values.all q) := by
  induction values with
  | nil => rfl
  | cons e values ih =>
    unfold capturedValuesMatch
    rw [h e List.mem_cons_self, ok_bind, List.all_cons,
      ih fun x hx => h x (List.mem_cons_of_mem _ hx)]
    cases q e <;> rfl

/-- **A live row and its captured row match the same expectations.** -/
theorem row_matches (hexact : ∀ e ∈ values, e.Exact host)
    (hselected : ∀ e ∈ values, (e.aliasName, e.valueType) ∈ selections)
    (hrow : captureRow selections row = .ok captured)
    (hfits : ∀ v ∈ captured.values, (utf8 (storedText v.2.value)).length ≤ maxRunBundleBytes) :
    rowMatches host row values = .ok (values.all row.has) ∧
      capturedRowMatches host captured.values values = .ok (values.all row.has) := by
  have hvalue := fun e he => value_matches (hexact e he) (hselected e he) hrow hfits
  refine ⟨rowMatches_of fun e he => (hvalue e he).1, ?_⟩
  unfold capturedRowMatches
  rw [require_of_true (decide_eq_true captured.wellFormed.2.2.2), ok_bind,
    capturedValuesMatch_of fun e he => (hvalue e he).2]

/-- The rows that match, of two lists whose members answer alike. -/
theorem filterOk_alike {α β ε : Type} {R : α → β → Prop} {as : List α} {bs : List β}
    {f : α → Except ε Bool} {g : β → Except ε Bool} {q : α → Bool} {k : α → String}
    {l : β → String} (hR : List.Forall₂ R as bs)
    (h : ∀ a ∈ as, ∀ b ∈ bs, R a b → f a = .ok (q a) ∧ g b = .ok (q a) ∧ l b = k a) :
    filterOk f as = .ok (as.filter q) ∧
      ∃ found, filterOk g bs = .ok found ∧ found.map l = (as.filter q).map k := by
  induction hR with
  | nil => exact ⟨rfl, [], rfl, rfl⟩
  | @cons a b as bs hab _ ih =>
    obtain ⟨hf, hg, hl⟩ := h a List.mem_cons_self b List.mem_cons_self hab
    obtain ⟨hfs, found, hgs, hfound⟩ := ih fun x hx y hy =>
      h x (List.mem_cons_of_mem _ hx) y (List.mem_cons_of_mem _ hy)
    unfold filterOk
    rw [hf, hg, ok_bind, ok_bind, hfs, hgs, ok_bind, ok_bind, List.filter_cons]
    refine ⟨rfl, _, rfl, ?_⟩
    cases q a with
    | false => exact hfound
    | true => simp [hl, hfound]

end Rows

/-! ## Tokens -/

theorem isLowerHex64_hexdigest {raw : List UInt8} (h : raw.length = 32) :
    isLowerHex64 (hexdigest raw) = true := by
  have hdigit : ∀ n, hexDigit n ∈ "0123456789abcdef".toList := by
    intro n
    have hlt : n % 16 < 16 := Nat.mod_lt _ (by omega)
    unfold hexDigit
    generalize n % 16 = m at hlt
    revert m
    decide
  unfold isLowerHex64 hexdigest
  rw [String.toList_ofList, Bool.and_eq_true, beq_iff_eq, List.all_eq_true]
  constructor
  · simp [List.length_flatMap, h]
  · intro c hc
    obtain ⟨b, -, hc⟩ := List.mem_flatMap.mp hc
    simp only [List.mem_cons, List.not_mem_nil, or_false] at hc
    rcases hc with rfl | rfl
    · exact decide_eq_true (hdigit _)
    · exact decide_eq_true (hdigit _)

theorem drop_sha256 (text : String) :
    String.ofList (("sha256:" ++ text).toList.drop 7) = text := by
  rw [String.toList_append]
  show String.ofList (List.drop "sha256:".toList.length ("sha256:".toList ++ text.toList)) = text
  rw [List.drop_left, String.ofList_toList]

theorem startsWith_append (start text : String) : startsWith start (start ++ text) = true := by
  unfold startsWith
  rw [String.toList_append, List.isPrefixOf_iff_prefix]
  exact List.prefix_append _ _

theorem expectSha256Token_of_hex {text fieldName : String} (h : isLowerHex64 text = true) :
    expectSha256Token ("sha256:" ++ text) fieldName = .ok () := by
  unfold expectSha256Token expectSha256Hex
  rw [drop_sha256, require_of_true (startsWith_append _ _), require_of_true h]
  rfl

/-- The checks of a token by the result and by the outcome of an expectation agree. -/
theorem expectSha256Token_of {value fieldName fieldName' : String}
    (h : requireSha256Token value fieldName = .ok ()) :
    expectSha256Token value fieldName' = .ok () := by
  unfold requireSha256Token requireSha256Hex at h
  obtain ⟨-, h⟩ := bind_unit_ok_iff.mp h
  obtain ⟨hstart, h⟩ := bind_unit_ok_iff.mp h
  obtain ⟨-, h⟩ := bind_unit_ok_iff.mp h
  unfold expectSha256Token expectSha256Hex
  rw [require_of_true (require_ok_iff.mp hstart), require_of_true (require_ok_iff.mp h)]
  rfl

theorem expectPrefixedToken_of {value start fieldName fieldName' : String}
    (h : requireTokenPrefix value start fieldName = .ok ()) :
    expectPrefixedToken value start fieldName' = .ok () := by
  unfold requireTokenPrefix at h
  obtain ⟨-, h⟩ := bind_unit_ok_iff.mp h
  obtain ⟨hstart, h⟩ := bind_unit_ok_iff.mp h
  unfold expectPrefixedToken expectSha256Hex
  rw [require_of_true (require_ok_iff.mp hstart), require_of_true (require_ok_iff.mp h)]
  rfl

/-! ## Outcomes -/

section Outcomes

variable {host : Host Val} {result : EvaluateResult} {queryDigest anchorDigest wrapperDigest : String}
  {e : CompiledExpectation}

/-- The ids of the rows that have what is expected, in order. -/
def matchingIds (result : EvaluateResult) (values : List ResolvedExpectationValue) : List String :=
  ((result.rows.filter fun row => values.all row.has).map (·.rowId)).insertionSort (· ≤ ·)

/-- The outcome of an expectation on a completely enumerated result. -/
def outcome (host : Host Val) (result : EvaluateResult)
    (queryDigest anchorDigest wrapperDigest : String) (e : CompiledExpectation) :
    ExpectationResult where
  expectationId := e.expectationId
  expectationDigest := e.digest host
  queryDigest := queryDigest
  targetedQueryWrapperDigest := wrapperDigest
  resultId := result.resultId
  resultDigest := result.resultDigest
  runAnchorDigest := some anchorDigest
  status := (statusOf (matchingIds result e.values) .completeNativeEnumeration).1
  completenessBasis := .completeNativeEnumeration
  matchedRowIds := matchingIds result e.values
  diagnosticCode := (statusOf (matchingIds result e.values) .completeNativeEnumeration).2

theorem mem_matchingIds {values : List ResolvedExpectationValue} {id : String} :
    id ∈ matchingIds result values ↔
      ∃ row ∈ result.rows, row.rowId = id ∧ ∀ v ∈ values, row.has v = true := by
  unfold matchingIds
  rw [List.mem_insertionSort, List.mem_map]
  constructor
  · rintro ⟨row, hrow, rfl⟩
    obtain ⟨hmem, hall⟩ := List.mem_filter.mp hrow
    exact ⟨row, hmem, rfl, List.all_eq_true.mp hall⟩
  · rintro ⟨row, hmem, rfl, hall⟩
    exact ⟨row, List.mem_filter.mpr ⟨hmem, List.all_eq_true.mpr hall⟩, rfl⟩

theorem matchingIds_sorted (result : EvaluateResult) (values : List ResolvedExpectationValue) :
    (matchingIds result values).insertionSort (· ≤ ·) = matchingIds result values ∧
      (matchingIds result values).Nodup := by
  constructor
  · exact (List.pairwise_insertionSort _ _).insertionSort_eq
  · apply (List.perm_insertionSort _ _).nodup_iff.mpr
    exact result.rowIds_nodup.sublist (List.filter_sublist.map _)

theorem satisfied_iff :
    (outcome host result queryDigest anchorDigest wrapperDigest e).status = .satisfied ↔
      ∃ id, id ∈ matchingIds result e.values := by
  unfold outcome statusOf
  cases matchingIds result e.values with
  | nil => simp
  | cons id ids => simp

theorem checkStatus_outcome :
    (outcome host result queryDigest anchorDigest wrapperDigest e).checkStatus = .ok () := by
  unfold ExpectationResult.checkStatus outcome statusOf
  cases hempty : (matchingIds result e.values).isEmpty with
  | true => simp [require]
  | false => simp [require]

variable (result e) in
/-- An outcome passes the checks of its type. -/
theorem check_outcome (hsha : ∀ raw, (host.sha256 raw).length = 32)
    (hquery : isLowerHex64 queryDigest = true)
    (hanchor : requireSha256Token anchorDigest "anchor_digest" = .ok ())
    (hwrapper : requireSha256Token wrapperDigest "targeted_query_wrapper_digest" = .ok ()) :
    (outcome host result queryDigest anchorDigest wrapperDigest e).check =
      .ok (outcome host result queryDigest anchorDigest wrapperDigest e) := by
  have hids : ((matchingIds result e.values).all fun id => id ≠ "") = true := by
    rw [List.all_eq_true]
    intro id hid
    obtain ⟨row, hrow, rfl, -⟩ := mem_matchingIds.mp hid
    exact decide_eq_true (result.rowId_ne row hrow)
  have hsorted := matchingIds_sorted result e.values
  have hcode : (outcome host result queryDigest anchorDigest wrapperDigest e).diagnosticCode ≠ "" := by
    unfold outcome statusOf
    split <;> simp
  unfold ExpectationResult.check
  rw [checkStatus_outcome]
  refine bind_unit_ok_iff.mpr ⟨require_of_true (decide_eq_true e.id_ne), ?_⟩
  refine bind_unit_ok_iff.mpr
    ⟨expectSha256Token_of_hex (isLowerHex64_hexdigest (hsha _)), ?_⟩
  refine bind_unit_ok_iff.mpr ⟨expectSha256Token_of hwrapper, ?_⟩
  refine bind_unit_ok_iff.mpr ⟨expectSha256Token_of result.resultDigest_ok, ?_⟩
  refine bind_unit_ok_iff.mpr ⟨require_of_true hquery, ?_⟩
  refine bind_unit_ok_iff.mpr ⟨expectPrefixedToken_of result.resultId_ok, ?_⟩
  refine bind_unit_ok_iff.mpr ⟨expectSha256Token_of hanchor, ?_⟩
  refine bind_unit_ok_iff.mpr ⟨require_of_true (decide_eq_true hcode), ?_⟩
  refine bind_unit_ok_iff.mpr ⟨require_of_true hids, ?_⟩
  refine bind_unit_ok_iff.mpr ⟨require_of_true ?_, rfl⟩
  rw [Bool.and_eq_true, decide_eq_true_eq, decide_eq_true_eq]
  exact hsorted

end Outcomes

/-! ## Runs -/

/-- A run of a query, and the bundle that is captured of it. -/
structure CapturedRun (query : Policy.CompiledQuery) (queryDigest : String)
    (result : EvaluateResult) (bundle : RunBundle) : Prop where
  anchored : result.runAnchor = some bundle.anchor
  selections : bundle.anchor.selections = selectionTypes query
  query_eq : bundle.queryDigest = queryDigest
  rows : List.Forall₂ (fun row captured => captureRow (selectionTypes query) row = .ok captured)
    result.rows bundle.rows
  fits : ∀ captured ∈ bundle.rows, ∀ v ∈ captured.values,
    (utf8 (storedText v.2.value)).length ≤ maxRunBundleBytes

theorem capturedRun {query : Policy.CompiledQuery} {queryDigest anchorDigest : String}
    {live result : EvaluateResult} {bundle : RunBundle}
    (hresult : anchorResult query queryDigest anchorDigest live = .ok result)
    (hbundle : buildRunBundle query queryDigest result = .ok bundle) :
    CapturedRun query queryDigest result bundle := by
  obtain ⟨anchor, hanchor, hselections⟩ :
      ∃ anchor, result.runAnchor = some anchor ∧ anchor.selections = selectionTypes query := by
    unfold anchorResult at hresult
    split at hresult
    next =>
      split at hresult
      next =>
        split at hresult
        next =>
          split at hresult
          next => cases hresult; exact ⟨_, rfl, rfl⟩
          next => cases hresult
        next => cases hresult
      next => cases hresult
    next => cases hresult
  unfold buildRunBundle at hbundle
  simp only [hanchor] at hbundle
  obtain ⟨rows, hrows, hbundle⟩ := bind_ok_iff.mp hbundle
  obtain ⟨built, hbuilt, hbundle⟩ := bind_ok_iff.mp hbundle
  obtain ⟨hfits, hbundle⟩ := bind_unit_ok_iff.mp hbundle
  cases hbundle
  obtain ⟨hbundleAnchor, hquery, hbundleRows⟩ :
      bundle.anchor = anchor ∧ bundle.queryDigest = queryDigest ∧ bundle.rows = rows := by
    unfold runBundle at hbuilt
    split at hbuilt
    next =>
      split at hbuilt
      next =>
        split at hbuilt
        next => cases hbuilt; exact ⟨rfl, rfl, rfl⟩
        next => cases hbuilt
      next => cases hbuilt
    next => cases hbuilt
  unfold captureRows at hrows
  obtain ⟨-, hrows⟩ := bind_unit_ok_iff.mp hrows
  obtain ⟨-, hrows⟩ := bind_unit_ok_iff.mp hrows
  refine ⟨hbundleAnchor ▸ hanchor, hbundleAnchor ▸ hselections, hquery, ?_, ?_⟩
  · exact hbundleRows ▸ mapOk_ok_iff.mp hrows
  · intro captured hcaptured v hv
    have hall := List.all_eq_true.mp (require_ok_iff.mp hfits) captured hcaptured
    exact of_decide_eq_true (List.all_eq_true.mp hall v hv)

section Runs

variable {host : Host Val} {query : Policy.CompiledQuery} {queryDigest wrapperDigest : String}
  {result : EvaluateResult} {bundle : RunBundle} {e : CompiledExpectation}

/-- What compiling says of an expectation: it is of the query, its values are selected, and each has
the cell and the digest of a typed value. -/
structure CompiledExpectation.Current (host : Host Val) (query : Policy.CompiledQuery)
    (queryDigest : String) (e : CompiledExpectation) : Prop where
  query_eq : e.queryDigest = queryDigest
  selected : ∀ v ∈ e.values, (v.aliasName, v.valueType) ∈ selectionTypes query
  exact : ∀ v ∈ e.values, v.Exact host

theorem CapturedRun.queryDigest_ok (h : CapturedRun query queryDigest result bundle) :
    isLowerHex64 queryDigest = true ∧ result.exprDigest = "sha256:" ++ queryDigest := by
  have hanchor := result.anchored bundle.anchor h.anchored
  rw [← h.query_eq, bundle.query_eq]
  have hhex := bundle.anchor.queryDigest_ok
  unfold requireSha256Hex at hhex
  obtain ⟨-, hhex⟩ := bind_unit_ok_iff.mp hhex
  exact ⟨require_ok_iff.mp hhex, hanchor.2.2.2⟩

theorem queryDigestForResult_ok (h : CapturedRun query queryDigest result bundle) :
    queryDigestForResult result = .ok queryDigest := by
  obtain ⟨hhex, hexpr⟩ := h.queryDigest_ok
  have hlength : queryDigest.toList.length = 64 := by
    unfold isLowerHex64 at hhex
    rw [Bool.and_eq_true, beq_iff_eq] at hhex
    exact hhex.1
  unfold queryDigestForResult
  rw [hexpr, startsWith_append, drop_sha256, if_pos]
  rw [Bool.true_and, beq_iff_eq, String.toList_append, List.length_append, hlength]
  rfl

/-- Compiled expectations are current. -/
theorem assertExpectationCurrent_ok (he : e.Current host query queryDigest) :
    assertExpectationCurrent host e = .ok () := by
  apply each_ok_iff.mpr
  intro v hv
  obtain ⟨n, hn⟩ := he.exact v hv
  rw [canonicalValue_again hn]
  simp [orExpectation, require]

theorem checkSelectionTypes_ok (h : CapturedRun query queryDigest result bundle)
    (he : e.Current host query queryDigest) :
    each (checkSelectionType bundle.anchor) e.values = .ok () := by
  apply each_ok_iff.mpr
  intro v hv
  have hselected := he.selected v hv
  rw [← h.selections] at hselected
  have hget := (Dict.get?_eq_some_iff bundle.anchor.aliases_nodup).mpr hselected
  unfold checkSelectionType
  rw [hget]
  exact require_of_true (decide_eq_true rfl)

/-- The rows that match an expectation, live and captured. -/
theorem rows_match (h : CapturedRun query queryDigest result bundle)
    (he : e.Current host query queryDigest) :
    filterOk (fun row => rowMatches host row e.values) result.rows =
        .ok (result.rows.filter fun row => e.values.all row.has) ∧
      ∃ found, filterOk (fun captured => capturedRowMatches host captured.values e.values)
          bundle.rows = .ok found ∧
        found.map (·.rowId) =
          (result.rows.filter fun row => e.values.all row.has).map (·.rowId) := by
  apply filterOk_alike h.rows
  intro row _ captured hcaptured hrow
  obtain ⟨hlive, hcapturedMatches⟩ := row_matches he.exact he.selected hrow (h.fits captured hcaptured)
  exact ⟨hlive, hcapturedMatches, (captureRow_ok hrow).1⟩

/-- **Both evaluations of an expectation have the outcome of its typed values.** -/
theorem outcomes_agree (hsha : ∀ raw, (host.sha256 raw).length = 32)
    (h : CapturedRun query queryDigest result bundle) (he : e.Current host query queryDigest)
    (hwrapper : requireSha256Token wrapperDigest "targeted_query_wrapper_digest" = .ok ()) :
    outcomeOf host result queryDigest wrapperDigest .completeNativeEnumeration e =
        .ok (outcome host result queryDigest bundle.anchor.anchorDigest wrapperDigest e) ∧
      capturedOutcomeOf host bundle wrapperDigest e =
        .ok (outcome host result queryDigest bundle.anchor.anchorDigest wrapperDigest e) := by
  obtain ⟨hfound, found, hcaptured, hids⟩ := rows_match h he
  have hcheck := check_outcome result e hsha h.queryDigest_ok.1
    bundle.anchor.anchorDigest_ok hwrapper
  obtain ⟨hresultId, hresultDigest, -, -⟩ := result.anchored bundle.anchor h.anchored
  constructor
  · unfold outcomeOf
    rw [require_of_true (decide_eq_true he.query_eq), ok_bind, hfound, ok_bind]
    apply ofShape_ok_iff.mpr
    rw [h.anchored]
    exact hcheck
  · unfold capturedOutcomeOf
    rw [assertExpectationCurrent_ok he, ok_bind,
      require_of_true (decide_eq_true (he.query_eq.trans h.query_eq.symm)), ok_bind,
      checkSelectionTypes_ok h he, ok_bind, hcaptured, ok_bind, hids]
    apply ofShape_ok_iff.mpr
    rw [hresultId, hresultDigest, h.query_eq]
    exact hcheck

end Runs

/-! ## Compiled expectations -/

section Compiled

variable {host : Host Val} {policyHost : Policy.Host} {entityHost : Entity.Host}
  {policy : Policy.CompiledPolicy} {space : Policy.SemanticAddressSpace} {index : SchemaIndex}
  {q : Policy.EvaluationQuery} {query : Policy.CompiledQuery} {queryDigest : String}

/-- A row displays what an expectation names: at each alias the typed value that is named for its
selection. -/
def EvaluateRow.displays (entityHost : Entity.Host) (index : SchemaIndex)
    (query : Policy.CompiledQuery) (row : EvaluateRow) (e : ContainsRowExpectation) : Prop :=
  ∀ v ∈ e.selectedValues, ∃ s ∈ query.selections, s.aliasName = v.1 ∧
    ∃ t, expectedTyped entityHost index s v.2 = some t ∧ row.typed v.1 = some t

theorem selections_of_compile
    (h : Policy.compileEvaluationQuery policyHost entityHost policy space index q = .ok query) :
    mapOk (Policy.resolveSelection policyHost space index policy) q.selections =
      .ok query.selections := by
  unfold Policy.compileEvaluationQuery at h
  obtain ⟨bindings, -, h⟩ := bind_ok_iff.mp h
  obtain ⟨selections, hselections, h⟩ := bind_ok_iff.mp h
  obtain ⟨-, h⟩ := bind_unit_ok_iff.mp h
  split at h
  next compiled hseal =>
    cases h
    unfold Policy.sealQuery at hseal
    obtain ⟨-, hseal⟩ := bind_unit_ok_iff.mp hseal
    obtain ⟨-, hseal⟩ := bind_unit_ok_iff.mp hseal
    obtain ⟨-, hseal⟩ := bind_unit_ok_iff.mp hseal
    obtain ⟨plan, -, hseal⟩ := bind_ok_iff.mp hseal
    cases hseal
    exact hselections
  next => cases h

/-- A compiled selection is what its selection resolves to. -/
theorem mem_selectionsOf
    (h : Policy.compileEvaluationQuery policyHost entityHost policy space index q = .ok query)
    {s : Policy.QuerySelection × Policy.ResolvedSelection} (hs : s ∈ selectionsOf q query) :
    s.2 ∈ query.selections ∧
      Policy.resolveSelection policyHost space index policy s.1 = .ok s.2 := by
  refine ⟨(List.of_mem_zip hs).2, ?_⟩
  have hforall := mapOk_ok_iff.mp (selections_of_compile h)
  exact List.forall₂_iff_zip.mp hforall |>.2 hs

/-- What compiling makes of one value of an expectation. -/
theorem compileSelectedValue_ok
    (h : Policy.compileEvaluationQuery policyHost entityHost policy space index q = .ok query)
    {v : String × FieldValue} {e : ResolvedExpectationValue}
    (he : compileSelectedValue host policyHost entityHost space index (selectionsOf q query) v =
      .ok e) :
    e.aliasName = v.1 ∧ ∃ s ∈ query.selections, s.aliasName = v.1 ∧ e.valueType = s.valueType ∧
      ∃ n, expectedTyped entityHost index s v.2 = some (e.valueType, n) ∧
        Means host e.valueType n e.normalized e.valueDigest := by
  unfold compileSelectedValue at he
  split at he
  next => cases he
  next s hs =>
    obtain ⟨found, hfound, he⟩ := bind_ok_iff.mp he
    have he := ofShape_ok_iff.mp he
    unfold resolvedExpectationValue at he
    obtain ⟨-, he⟩ := bind_unit_ok_iff.mp he
    obtain ⟨-, he⟩ := bind_unit_ok_iff.mp he
    obtain ⟨-, he⟩ := bind_unit_ok_iff.mp he
    cases he
    obtain ⟨hmem, hresolve⟩ := mem_selectionsOf h (List.mem_of_find?_eq_some hs)
    obtain ⟨htype, n, hn, hmeans⟩ := normalizeExpectedValue_ok hresolve hfound
    have halias := List.find?_some hs
    exact ⟨rfl, s.2, hmem, of_decide_eq_true halias, htype, n, hn, hmeans⟩

/-- **A compiled expectation names what the expectation names.** -/
theorem compileExpectation_ok
    (h : Policy.compileEvaluationQuery policyHost entityHost policy space index q = .ok query)
    (hnodup : (query.selections.map (·.aliasName)).Nodup) {e : ContainsRowExpectation}
    {c : CompiledExpectation}
    (hc : compileExpectation host policyHost entityHost space index (selectionsOf q query) queryDigest
      e = .ok c) :
    c.expectationId = e.expectationId ∧ c.Current host query queryDigest ∧
      ∀ row : EvaluateRow, (∀ v ∈ c.values, row.has v = true) ↔
        row.displays entityHost index query e := by
  unfold compileExpectation at hc
  obtain ⟨values, hvalues, hc⟩ := bind_ok_iff.mp hc
  obtain ⟨hid, hquery, hmem⟩ : c.expectationId = e.expectationId ∧ c.queryDigest = queryDigest ∧
      ∀ v, v ∈ c.values ↔ v ∈ values := by
    have hc := ofShape_ok_iff.mp hc
    unfold compiledExpectation at hc
    split at hc
    next =>
      obtain ⟨-, hc⟩ := bind_unit_ok_iff.mp hc
      split at hc
      next =>
        split at hc
        next =>
          cases hc
          exact ⟨rfl, rfl, fun v => (Policy.sortBy_perm _ values).mem_iff⟩
        next => cases hc
      next => cases hc
    next => cases hc
  refine ⟨hid, ⟨hquery, ?_, ?_⟩, ?_⟩
  · intro v hv
    obtain ⟨w, -, hw⟩ := mem_of_mapOk hvalues ((hmem v).mp hv)
    obtain ⟨halias, s, hs, hsalias, htype, -⟩ := compileSelectedValue_ok h hw
    rw [halias, htype, ← hsalias]
    exact List.mem_map.mpr ⟨s, hs, rfl⟩
  · intro v hv
    obtain ⟨w, -, hw⟩ := mem_of_mapOk hvalues ((hmem v).mp hv)
    obtain ⟨-, s, -, -, -, n, -, hn⟩ := compileSelectedValue_ok h hw
    exact ⟨n, hn⟩
  · intro row
    constructor
    · intro hhas w hw
      obtain ⟨v, hv, hstep⟩ := image_of_mapOk hvalues hw
      obtain ⟨halias, s, hs, hsalias, -, n, hexpected, hmeans⟩ := compileSelectedValue_ok h hstep
      have hrow := of_decide_eq_true (hhas v ((hmem v).mpr hv))
      rw [ResolvedExpectationValue.typed, hmeans.stored, halias] at hrow
      exact ⟨s, hs, hsalias, _, hexpected, hrow⟩
    · intro hdisplays v hv
      obtain ⟨w, hw, hstep⟩ := mem_of_mapOk hvalues ((hmem v).mp hv)
      obtain ⟨halias, s, hs, hsalias, -, n, hexpected, hmeans⟩ := compileSelectedValue_ok h hstep
      obtain ⟨s', hs', hsalias', t, hexpected', hrow⟩ := hdisplays w hw
      -- an alias is selected once, so the displayed selection is the compiled one
      obtain rfl : s' = s :=
        List.inj_on_of_nodup_map hnodup hs' hs (hsalias'.trans hsalias.symm)
      rw [hexpected] at hexpected'
      cases hexpected'
      apply decide_eq_true
      rw [ResolvedExpectationValue.typed, hmeans.stored, halias, hrow]

end Compiled

/-! ## Agreement -/

/-- **Live and captured evaluation agree, and both look for a row with the typed values that are
named.** A native run of a compiled query has an anchored result, of which a bundle is captured; the
expectations are compiled for the query. Then the two evaluations return the same outcomes. The rows
matched by an expectation are those that display what it names, and it is satisfied if and only if
there is one. -/
theorem contains_row_expectations_agree {host : Host Val} {policyHost : Policy.Host}
    {entityHost : Entity.Host} {policy : Policy.CompiledPolicy}
    {space : Policy.SemanticAddressSpace} {index : SchemaIndex} {q : Policy.EvaluationQuery}
    {query : Policy.CompiledQuery} {queryDigest anchorDigest wrapperDigest : String}
    {live result : EvaluateResult} {bundle : RunBundle}
    {expectations : List ContainsRowExpectation} {compiled : List CompiledExpectation}
    (hsha : ∀ raw, (host.sha256 raw).length = 32)
    (hquery : Policy.compileEvaluationQuery policyHost entityHost policy space index q = .ok query)
    (hresult : anchorResult query queryDigest anchorDigest live = .ok result)
    (hbundle : buildRunBundle query queryDigest result = .ok bundle)
    (hcompiled : compileContainsRowExpectations host policyHost entityHost space index q query
      queryDigest expectations = .ok compiled)
    (hwrapper : requireSha256Token wrapperDigest "targeted_query_wrapper_digest" = .ok ()) :
    ∃ outcomes,
      evaluateContainsRowExpectations host compiled result wrapperDigest
        .completeNativeEnumeration = .ok outcomes ∧
      evaluateCapturedContainsRowExpectations host compiled bundle wrapperDigest = .ok outcomes ∧
      List.Forall₂ (fun (e : ContainsRowExpectation) (o : ExpectationResult) =>
        o.expectationId = e.expectationId ∧
        (∀ id, id ∈ o.matchedRowIds ↔
          ∃ row ∈ result.rows, row.rowId = id ∧ row.displays entityHost index query e) ∧
        (o.status = .satisfied ↔
          ∃ row ∈ result.rows, row.displays entityHost index query e)) expectations outcomes := by
  have hrun := capturedRun hresult hbundle
  have hnodup : (query.selections.map (·.aliasName)).Nodup := by
    have haliases := bundle.anchor.aliases_nodup
    rw [hrun.selections, selectionTypes, List.map_map] at haliases
    exact haliases
  unfold compileContainsRowExpectations at hcompiled
  obtain ⟨hids, hcompiled⟩ := bind_unit_ok_iff.mp hcompiled
  have hforall := mapOk_ok_iff.mp hcompiled
  have hcurrent : ∀ c ∈ compiled, c.Current host query queryDigest := by
    intro c hc
    obtain ⟨e, -, he⟩ := mem_of_mapOk hcompiled hc
    exact (compileExpectation_ok hquery hnodup he).2.1
  -- one outcome for both routes, and it is about the rows of the result
  have hagree := fun c hc => outcomes_agree hsha hrun (hcurrent c hc) hwrapper
  have hstart : startsWith "sha256:" wrapperDigest = true := by
    unfold requireSha256Token at hwrapper
    obtain ⟨-, hwrapper⟩ := bind_unit_ok_iff.mp hwrapper
    obtain ⟨hwrapper, -⟩ := bind_unit_ok_iff.mp hwrapper
    exact require_ok_iff.mp hwrapper
  have hnodupIds : (compiled.map (·.expectationId)).Nodup := by
    have heq : compiled.map (·.expectationId) = expectations.map (·.expectationId) :=
      map_of_mapOk hcompiled fun e c he => (compileExpectation_ok hquery hnodup he).1
    exact heq ▸ of_decide_eq_true (require_ok_iff.mp hids)
  refine ⟨compiled.map (outcome host result queryDigest bundle.anchor.anchorDigest wrapperDigest),
    ?_, ?_, ?_⟩
  · unfold evaluateContainsRowExpectations requireWrapper
    rw [require_of_true hstart, ok_bind, queryDigestForResult_ok hrun, ok_bind]
    exact mapOk_ok_iff.mpr (List.forall₂_map_right_iff.mpr
      (List.forall₂_same.mpr fun c hc => (hagree c hc).1))
  · unfold evaluateCapturedContainsRowExpectations requireWrapper
    rw [require_of_true hstart, ok_bind, require_of_true (decide_eq_true hnodupIds), ok_bind]
    exact mapOk_ok_iff.mpr (List.forall₂_map_right_iff.mpr
      (List.forall₂_same.mpr fun c hc => (hagree c hc).2))
  · apply List.forall₂_map_right_iff.mpr
    apply hforall.imp
    intro e c he
    obtain ⟨hid, -, hrow⟩ := compileExpectation_ok hquery hnodup he
    have hids : ∀ id, id ∈ matchingIds result c.values ↔
        ∃ row ∈ result.rows, row.rowId = id ∧ row.displays entityHost index query e := by
      intro id
      rw [mem_matchingIds]
      simp only [hrow]
    refine ⟨hid, hids, ?_⟩
    rw [satisfied_iff]
    constructor
    · rintro ⟨id, hid⟩
      obtain ⟨row, hmem, -, hdisplays⟩ := (hids id).mp hid
      exact ⟨row, hmem, hdisplays⟩
    · rintro ⟨row, hmem, hdisplays⟩
      exact ⟨row.rowId, (hids _).mpr ⟨row, hmem, rfl, hdisplays⟩⟩

/-! ## An open order -/

/-- A host whose digest of a text ends in a rolling checksum of its bytes. -/
def tableHost : Host Val where
  sha256 := fun raw => List.replicate 31 0 ++ [raw.foldl (fun h b => 31 * h + b) 0]
  floatRepr := fun _ => ""
  dictRepr := fun _ => ""

def orderPolicyHost : Policy.Host where
  exprKey := fun _ => ""
  endpointKey := fun _ => ""
  joinKey := fun _ => ""
  atomKey := fun _ => ""
  reprText := fun s => s
  contentDigest := fun _ => "orders"
  sha256Hex := fun text => text

def orderEntityHost : Entity.Host where
  db := ⟨fun _ => [], fun _ => .empty, fun _ => ""⟩
  str := fun _ => ""
  reprValue := fun _ => ""
  reprText := fun s => s
  fullmatch := fun _ _ => .ok true

/-- The rule that reads the status of an order. -/
def orderRule : Policy.Rule where
  id := "orders"
  version := none
  body := [.pred "Order:status" [.var "$o", .var "$s"]]
  ports := [("status", "$s")]
  port_mem := by decide

def orderSpace : Policy.SemanticAddressSpace where
  occurrences := [⟨⟨orderRule, "order", by decide⟩,
    ⟨"orders", none, "orders", "", [("status", ⟨"$s", .field "Order" "status"⟩)], ""⟩⟩]
  digest := ""
  nodup := by decide

def orderIndex : SchemaIndex where
  entities := []
  fieldPredicates := [(("Order", "status"),
    { predId := "Order:status", ownerType := "Order", pyFieldName := some "status",
      cardinality := "single", valueTypeDomain := some "string" })]
  predicatesById := []
  identityPredIds := []
  existsPredIds := []

def orderPolicy : Policy.CompiledPolicy where
  branches := [⟨"b", ["order"], ["order"]⟩]
  bodyPlan := ⟨[⟨"b", ["order"], [], []⟩],
    [⟨"order", "orders", "orders", [⟨"order", "status", .value, "$s", "$order__s"⟩], none, none⟩]⟩
  conditions := []

/-- The query for the status of an order. -/
def orderQuery : Policy.EvaluationQuery where
  selections := [⟨"status", .direct ⟨"order", "status"⟩⟩]
  bindings := []
  selections_ne := by decide
  alias_ne := by decide
  aliases_nodup := by decide
  sources_nodup := by decide
  bindings_nodup := by decide

def compiledOrderQuery : Policy.CompiledQuery where
  bindings := []
  selections := [⟨"status", "string", none, [⟨"b", "order", "status"⟩]⟩]
  applicable := []
  plan :=
    { head := ["status"]
      branches := orderPolicy.bodyPlan.branches
      occurrenceMap := orderPolicy.bodyPlan.occurrenceMap
      headLinks := [⟨"b", "status", "order", "status"⟩]
      valueBindings := []
      lookups := []
      conditions := [] }

def zeros : String := "0000000000000000000000000000000000000000000000000000000000000000"

/-- A result with one row, an open order. -/
def orderResult : EvaluateResult where
  resultId := "evalr_v1:" ++ zeros
  rows := [{
    rowId := "row"
    bindings := [("status", .mapping
      [("kind", .str "literal"), ("tag", .str "string"), ("value", .str "open")])]
    kind := .projection
    digest := "sha256:" ++ zeros
    closedHeadDigest := "sha256:" ++ zeros
    certainty := none }]
  exprDigest := "sha256:" ++ zeros
  resultDigest := "sha256:" ++ zeros
  runAnchor := none
  resultId_ok := by decide
  exprDigest_ok := by decide
  resultDigest_ok := by decide
  rowId_ne := by simp
  rowIds_nodup := by simp
  anchored := by simp

def orderAnchor : RunAnchor where
  queryDigest := zeros
  selections := [("status", "string")]
  resultId := orderResult.resultId
  resultDigest := orderResult.resultDigest
  rowIds := ["row"]
  anchorDigest := "sha256:" ++ zeros
  queryDigest_ok := by decide
  anchorDigest_ok := by decide
  aliases_nodup := by decide
  rowIds_nodup := by decide

def anchoredOrder : EvaluateResult :=
  { orderResult with
    runAnchor := some orderAnchor
    anchored := by
      intro a h
      cases h
      exact ⟨rfl, rfl, rfl, rfl⟩ }

/-- The captured row. -/
def orderBundle : RunBundle where
  anchor := orderAnchor
  queryDigest := zeros
  rows := [⟨"row", [("status", ⟨"string", .str "open", rfl⟩)], by decide⟩]
  query_eq := rfl
  rows_eq := rfl
  aliases_eq := by decide

/-- An order is expected that is open, and one that is closed. -/
def orderExpectations : List ContainsRowExpectation :=
  [⟨"some-open", [("status", .scalar (.leaf (.str "open")))], by decide, by simp, by simp, by simp⟩,
    ⟨"some-closed", [("status", .scalar (.leaf (.str "closed")))], by decide, by simp, by simp,
      by simp⟩]

/-- The two, each value with its digest. -/
def compiledOrderExpectations : List CompiledExpectation :=
  [⟨"some-open", zeros, [⟨"status", "string", .str "open",
      "0000000000000000000000000000000000000000000000000000000000000084"⟩], by decide, by simp,
      by simp⟩,
    ⟨"some-closed", zeros, [⟨"status", "string", .str "closed",
      "00000000000000000000000000000000000000000000000000000000000000a8"⟩], by decide, by simp,
      by simp⟩]

/-- Live and captured, the open order is found and no closed one. -/
theorem orders_agree : ∃ outcomes,
    evaluateContainsRowExpectations tableHost compiledOrderExpectations anchoredOrder
      ("sha256:" ++ zeros) .completeNativeEnumeration = .ok outcomes ∧
    evaluateCapturedContainsRowExpectations tableHost compiledOrderExpectations orderBundle
      ("sha256:" ++ zeros) = .ok outcomes ∧
    List.Forall₂ (fun (e : ContainsRowExpectation) (o : ExpectationResult) =>
      o.expectationId = e.expectationId ∧
      (∀ id, id ∈ o.matchedRowIds ↔ ∃ row ∈ anchoredOrder.rows, row.rowId = id ∧
        row.displays orderEntityHost orderIndex compiledOrderQuery e) ∧
      (o.status = .satisfied ↔ ∃ row ∈ anchoredOrder.rows,
        row.displays orderEntityHost orderIndex compiledOrderQuery e)) orderExpectations outcomes := by
  have hquery : Policy.compileEvaluationQuery orderPolicyHost orderEntityHost orderPolicy orderSpace
      orderIndex orderQuery = .ok compiledOrderQuery := rfl
  have hresult : anchorResult compiledOrderQuery zeros ("sha256:" ++ zeros) orderResult =
      .ok anchoredOrder := rfl
  have hbundle : buildRunBundle compiledOrderQuery zeros anchoredOrder = .ok orderBundle := rfl
  have hcompiled : compileContainsRowExpectations tableHost orderPolicyHost orderEntityHost
      orderSpace orderIndex orderQuery compiledOrderQuery zeros orderExpectations =
        .ok compiledOrderExpectations := set_option maxRecDepth 4000 in rfl
  exact contains_row_expectations_agree (fun _ => by simp [tableHost]) hquery hresult hbundle
    hcompiled (by decide)

end FactGraph.Evaluate
