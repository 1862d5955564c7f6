import FactGraph.Derivation.Heads
import FactGraph.Lib.BestPerKey

/-!
# The outputs of a derivation

`derivation_outputs_from_bindings` of `core/store/_builders.py`: a candidate for every row of
bindings, one kept for every key.

The key of a candidate tells the tagged arguments its row has given (`contents_of_candidateKey`,
`terms_of_contents`), so rows of one key differ in their support alone, and what is kept does not
depend on the order of the rows (`derivationOutputs_order_independent`). A clock reading goes into
every output and decides nothing: it is left out. The id of a run is an argument here.
-/

namespace FactGraph.Derivation

open Protocol Store Check JsonText Db

/-! ## Rows -/

/-- What building the outputs raises. -/
inductive BuildErr where
  | rules (e : Rules.Err)
  | store (e : StoreErr)
  | index (msg : String)

abbrev Binding := List (String × Datum)

/-- `BindingSupportCapture`: its items are as `normalize_binding_items` leaves them. -/
structure BindingSupportCapture where
  bindingItems : Binding
  supportDigest : String
  supportKind : String
  sorted : bindingItems.Pairwise fun p q => p.1 ≤ q.1
  keys_ne : ∀ p ∈ bindingItems, p.1 ≠ ""
  kind_ne : supportKind ≠ ""
  digest_start : startsWith "sha256:" supportDigest = true

/-- `binding_dict_from_items`. -/
def BindingSupportCapture.bindingDict (row : BindingSupportCapture) : Binding :=
  Dict.update [] row.bindingItems

/-- `f"sha256:{'0' * 64}"`. -/
def noWitnessDigest : String := "sha256:" ++ String.ofList (List.replicate 64 '0')

/-- The row that `_coerce_binding_rows` makes of a binding without support. -/
def unsupportedRow (binding : Binding) : Except BuildErr BindingSupportCapture :=
  if h : ∀ p ∈ binding, p.1 ≠ "" then
    .ok
      { bindingItems := binding.insertionSort fun p q => p.1 ≤ q.1
        supportDigest := noWitnessDigest
        supportKind := "engine_no_witness_v1"
        sorted := by
          have htotal : Std.Total fun p q : String × Datum => p.1 ≤ q.1 := ⟨fun _ _ => le_total _ _⟩
          have htrans : IsTrans (String × Datum) fun p q => p.1 ≤ q.1 := ⟨fun _ _ _ => le_trans⟩
          exact List.pairwise_insertionSort _ _
        keys_ne := fun p hp => h p ((List.mem_insertionSort _).mp hp)
        kind_ne := by decide
        digest_start := by
          simp [noWitnessDigest, startsWith] }
  else .error (.store (.valueError "binding keys must be non-empty strings"))

/-- `_coerce_binding_rows`. -/
def coerceBindingRows (rows : Option (List BindingSupportCapture)) (bindings : Option (List Binding)) :
    Except BuildErr (List BindingSupportCapture) :=
  match rows, bindings with
  | some _, some _ => .error (.store (.valueError "pass either rows or bindings, not both"))
  | some rows, none => .ok rows
  | none, none => .error (.store (.valueError "rows or bindings must be provided"))
  | none, some bindings => mapOk unsupportedRow bindings

/-! ## Tagged arguments -/

/-- `resolve_head_ref`. -/
def resolveHeadRef (headRef : Datum) (binding : Binding) : Except Rules.Err Datum :=
  match headRef with
  | .leaf (.str name) =>
      if startsWith "$" name then
        match Dict.get? binding name with
        | some value => .ok value
        | none => .error (.whereValidation s!"unbound head variable: {name}")
      else .ok headRef
  | _ => .ok headRef

mutual

/-- A value of a binding as an object of a payload. -/
def ofDatum : Datum → PyVal
  | .leaf s => .leaf s
  | .arr xs => .list (ofDatumList xs)
  | .obj fs => .dict (ofDatumFields fs)

def ofDatumList : List Datum → List PyVal
  | [] => []
  | x :: xs => ofDatum x :: ofDatumList xs

def ofDatumFields : List (String × Datum) → List (String × PyVal)
  | [] => []
  | (k, x) :: fs => (k, ofDatum x) :: ofDatumFields fs

end

/-- The tag of an argument specification, if it is one of `CANONICAL_TAGS`. -/
def readTag (host : Host) (idx : Nat) (argSpec : Datum) : Except Rules.Err String :=
  match argSpec with
  | .obj fields =>
      let domain := (Dict.get? fields "type_domain").getD (.leaf .none)
      match domain with
      | .leaf (.str tag) => do
          require (tagCode? tag).isSome (.whereValidation s!"arg_specs[{idx}].type_domain invalid: {tag}")
          .ok tag
      | _ =>
          .error (.whereValidation
            s!"arg_specs[{idx}].type_domain invalid: {host.str (ofDatum domain)}")
  | _ => .error (.whereValidation s!"arg_specs[{idx}] must be object")

/-- An argument of `build_tagged_args`. -/
def taggedArg (host : Host) (binding : Binding) (arg : (Datum × Datum) × Nat) : Except Rules.Err Term := do
  let tag ← readTag host arg.2 arg.1.1
  let value ← resolveHeadRef arg.1.2 binding
  let coerced ← coerceValueForTag tag value
  .ok (tag, coerced)

/-- `build_tagged_args`. -/
def buildTaggedArgs (host : Host) (argSpecs headVars : List Datum) (binding : Binding) :
    Except Rules.Err (List Term) :=
  mapOk (taggedArg host binding) (argSpecs.zip headVars).zipIdx

/-- The loop of `read_group_key_indexes`. -/
def groupKeyIndexesFrom (argCount : Nat) (last : Int) : List Datum → Except Rules.Err (List Nat)
  | [] => .ok []
  | .leaf (.int idx) :: rest => do
      require (0 ≤ idx ∧ idx < argCount)
        (.whereValidation "group_key_indexes contains out-of-range value")
      require (last < idx) (.whereValidation "group_key_indexes must be strictly ascending")
      let out ← groupKeyIndexesFrom argCount idx rest
      .ok (idx.toNat :: out)
  | _ => .error (.whereValidation "group_key_indexes values must be int")

/-- `read_group_key_indexes`. -/
def readGroupKeyIndexes (schemaPred : List (String × Datum)) (argCount : Nat) :
    Except Rules.Err (List Nat) :=
  match Dict.get? schemaPred "group_key_indexes" with
  | some (.arr indexes) => groupKeyIndexesFrom argCount (-1) indexes
  | _ => .error (.whereValidation "group_key_indexes must be list")

/-- `_term_from_tag_value`. -/
def termFromTagValue (term : Term) : Except Rules.Err PyVal :=
  if term.1 = "entity_ref" then
    match term.2 with
    | .leaf (.str value) => do
        require (value ≠ "") (.whereValidation "entity_ref value must be non-empty string")
        .ok (.dict [("kind", .leaf (.str "entity_ref")), ("value", .leaf (.str value))])
    | _ => .error (.whereValidation "entity_ref value must be non-empty string")
  else
    .ok (.dict [("kind", .leaf (.str "literal")), ("tag", .leaf (.str term.1)),
      ("value", ofDatum term.2)])

/-! ## Outputs -/

/-- A `DerivationOutput` with the fields that a builder fills beside those of its identity. -/
structure BuiltOutput extends DerivationOutput where
  keyTupleDigest : String
  tupDigest : String
  supportDigest : String
  supportKind : String
  confidenceKind : String

/-- What `derivation_outputs_from_bindings` is given beside the rows. -/
structure FactHead where
  derivationId : String
  version : String
  runId : String
  targetPredId : String
  argSpecs : List Datum
  headVars : List Datum
  schemaPred : List (String × Datum)
  /-- `_resolve_confidence_kind`, of a support digest and a support kind. -/
  confidenceKind : String → String → Except BuildErr String

/-- `make_derivation_output` of a fact. -/
def makeDerivationOutput (host : Host) (head : FactHead) (keyTerms : List Term)
    (payload : List (String × PyVal)) (supportDigest supportKind tupDigest confidenceKind : String) :
    Except StoreErr BuiltOutput := do
  require (head.derivationId ≠ "") (.valueError "derivation_id must be non-empty string")
  require (head.version ≠ "") (.valueError "derivation_version must be non-empty string")
  require (head.runId ≠ "") (.valueError "run_id must be non-empty string")
  require (head.targetPredId ≠ "") (.valueError "target must be non-empty string")
  let keyBytes ← canonicalBytesTupV1 keyTerms
  let candidateKey ← computeCandidateKeyV2 host head.derivationId head.version .fact head.targetPredId
    payload
  let candidateId := computeCandidateIdV2 host head.runId .fact head.targetPredId candidateKey
  let args : OutputArgs :=
    { derivationId := head.derivationId
      derivationVersion := head.version
      runId := head.runId
      target := head.targetPredId
      keyTupleDigest := sha256Token host.sha256 keyBytes
      payload := payload
      confidenceKind := confidenceKind
      candidateId := candidateId
      candidateKey := candidateKey }
  let output ← args.postInit host
  .ok
    { toDerivationOutput := output
      keyTupleDigest := sha256Token host.sha256 keyBytes
      tupDigest := tupDigest
      supportDigest := supportDigest
      supportKind := supportKind
      confidenceKind := confidenceKind }

/-- An exception of the rules, raised by the builder. -/
def ofRules {α : Type} (x : Except Rules.Err α) : Except BuildErr α := x.mapError .rules

/-- The output for the tagged arguments of a row. -/
def taggedOutput (host : Host) (head : FactHead) (groupKeyIndexes : List Nat)
    (supportDigest supportKind : String) : List Term → Except BuildErr BuiltOutput
  | [] => .error (.index "list index out of range")
  | (eTag, eRef) :: restTerms => do
      require (eTag = "entity_ref") (.rules (.whereValidation "target arg0 must be entity_ref"))
      let restBytes ← (canonicalBytesTupV1 restTerms).mapError fun e =>
        .rules (wrapValueError
          (fun msg => .whereValidation s!"invalid rest_terms for target payload: {msg}") e)
      let dimsTerms ← mapOk
        (fun idx => match ((eTag, eRef) :: restTerms)[idx]? with
          | some term => .ok term
          | none => .error (.index "list index out of range"))
        (groupKeyIndexes.filter (· ≠ 0))
      let keyTerms := ("string", .leaf (.str head.targetPredId)) :: ("entity_ref", eRef) :: dimsTerms
      let terms ← ofRules (mapOk termFromTagValue ((eTag, eRef) :: restTerms))
      let confidenceKind ← head.confidenceKind supportDigest supportKind
      (makeDerivationOutput host head keyTerms
        [("pred_id", .leaf (.str head.targetPredId)), ("terms", .list terms)] supportDigest supportKind
        (sha256Token host.sha256 restBytes) confidenceKind).mapError .store

/-- The output for a row. -/
def rowOutput (host : Host) (head : FactHead) (groupKeyIndexes : List Nat)
    (row : BindingSupportCapture) : Except BuildErr BuiltOutput := do
  let tagged ← ofRules (buildTaggedArgs host head.argSpecs head.headVars row.bindingDict)
  taggedOutput host head groupKeyIndexes row.supportDigest row.supportKind tagged

/-- `_support_is_better`. -/
def supportIsBetter (output existing : BuiltOutput) : Bool :=
  if output.supportDigest < existing.supportDigest then true
  else if output.supportDigest = existing.supportDigest then
    output.supportKind < existing.supportKind
  else false

/-- `derivation_outputs_from_bindings`. -/
def derivationOutputsFromBindings (host : Host) (head : FactHead)
    (rows : Option (List BindingSupportCapture)) (bindings : Option (List Binding)) :
    Except BuildErr (List BuiltOutput) := do
  let groupKeyIndexes ← ofRules (readGroupKeyIndexes head.schemaPred head.argSpecs.length)
  let bindingRows ← coerceBindingRows rows bindings
  let outputs ← mapOk (rowOutput host head groupKeyIndexes) bindingRows
  .ok (BestPerKey.outputs (fun o : BuiltOutput => o.candidateKey) supportIsBetter outputs)

/-! ## What a key tells -/

/-- A term whose value is a scalar, and no float but a finite one. -/
def IsScalar (t : Term) : Prop := ∃ s, t.2 = .leaf s ∧ ∀ x, s = .float x → x.isFinite = true

theorem scalar_of_coerceValueForTag {tag : String} {value coerced : Datum}
    (h : coerceValueForTag tag value = .ok coerced) : IsScalar (tag, coerced) := by
  unfold coerceValueForTag at h
  obtain ⟨candidate, -, h⟩ := bind_ok_iff.mp h
  cases hraw : canonicalBytesTupV1 [(tag, candidate)] with
  | error e =>
    rw [hraw] at h
    cases h
  | ok raw =>
    rw [hraw] at h
    cases h
    obtain ⟨payload, hpayload⟩ := encode_of_canonical hraw (tag, coerced) (by simp)
    exact scalar_of_encodeValueBytes hpayload

theorem scalar_of_buildTaggedArgs {host : Host} {argSpecs headVars : List Datum} {binding : Binding}
    {tagged : List Term} (h : buildTaggedArgs host argSpecs headVars binding = .ok tagged) :
    ∀ t ∈ tagged, IsScalar t := by
  intro t ht
  obtain ⟨arg, -, harg⟩ := mem_of_mapOk h ht
  unfold taggedArg at harg
  obtain ⟨tag, -, harg⟩ := bind_ok_iff.mp harg
  obtain ⟨value, -, harg⟩ := bind_ok_iff.mp harg
  obtain ⟨coerced, hcoerced, harg⟩ := bind_ok_iff.mp harg
  cases harg
  exact scalar_of_coerceValueForTag hcoerced

theorem oneNan_of_isFinite {x : F64} (h : x.isFinite = true) : oneNan x = x := by
  unfold oneNan
  rw [if_pos (.inl h)]

/-- A scalar is told by the canonical text of a payload. -/
theorem leafToJsonable_inj {s s' : Scalar} (hs : ∀ x, s = .float x → x.isFinite = true)
    (hs' : ∀ x, s' = .float x → x.isFinite = true)
    (h : canonDoc (leafToJsonable s) = canonDoc (leafToJsonable s')) : s = s' := by
  cases s <;> cases s' <;>
    simp only [leafToJsonable, canonDoc, Store.sortKeys, sortKeysFields, mapLeaves,
      mapLeavesFields, telling, List.insertionSort_cons, List.insertionSort_nil, List.orderedInsert_nil, Doc.leaf.injEq,
      Doc.obj.injEq, List.cons.injEq, Prod.mk.injEq, JsonScalar.bool.injEq, JsonScalar.int.injEq,
      JsonScalar.str.injEq, JsonScalar.float.injEq, reduceCtorEq, and_true, true_and] at h ⊢
  · exact congrArg Scalar.bool h
  · exact congrArg Scalar.int h
  · rw [oneNan_of_isFinite (hs _ rfl), oneNan_of_isFinite (hs' _ rfl)] at h
    exact congrArg Scalar.float h
  · exact congrArg Scalar.str h
  · exact congrArg Scalar.bytes (hexdigest_inj h)

/-- What the canonical content of a payload says of a term. -/
def termContent (host : Host) (p : PyVal) : Json := canonDoc (normalizeTermForContent host p)

theorem termContent_entityRef (host : Host) (value : String) :
    termContent host (.dict [("kind", .leaf (.str "entity_ref")), ("value", .leaf (.str value))]) =
      .obj [("kind", text "entity_ref"), ("value", text value)] := by
  have hsorted : "kind" ≤ "value" := by decide
  simp [termContent, normalizeTermForContent, getKey, Dict.get?, PyVal.str?, canonDoc,
    Store.sortKeys, sortKeysFields, text, mapLeaves, mapLeavesFields, telling, hsorted]

theorem termContent_literal (host : Host) (tag : String) (value : PyVal) :
    termContent host (.dict [("kind", .leaf (.str "literal")), ("tag", .leaf (.str tag)),
        ("value", value)]) =
      .obj [("kind", text "literal"), ("tag", text tag), ("value", canonDoc (toJsonable value))] := by
  have hkind : "kind" ≤ "tag" := by decide
  have htag : "tag" ≤ "value" := by decide
  simp [termContent, normalizeTermForContent, literalTerm, getKey, Dict.get?, PyVal.str?, Host.str,
    canonDoc, Store.sortKeys, sortKeysFields, text, mapLeaves, mapLeavesFields, telling, hkind, htag]

/-- A term is told by the content. -/
theorem term_of_termContent {host : Host} {t t' : Term} {p p' : PyVal} (ht : IsScalar t)
    (ht' : IsScalar t') (hp : termFromTagValue t = .ok p) (hp' : termFromTagValue t' = .ok p')
    (h : termContent host p = termContent host p') : t = t' := by
  obtain ⟨tag, value⟩ := t
  obtain ⟨tag', value'⟩ := t'
  obtain ⟨s, hs, hfinite⟩ := ht
  obtain ⟨s', hs', hfinite'⟩ := ht'
  change value = .leaf s at hs
  change value' = .leaf s' at hs'
  subst hs hs'
  -- a reference is its text, another term its tag and its value
  have hread : ∀ (tag : String) (s : Scalar) (p : PyVal), termFromTagValue (tag, .leaf s) = .ok p →
      (tag = "entity_ref" ∧ ∃ value, s = .str value ∧
        termContent host p = .obj [("kind", text "entity_ref"), ("value", text value)]) ∨
      (tag ≠ "entity_ref" ∧ termContent host p = .obj [("kind", text "literal"), ("tag", text tag),
        ("value", canonDoc (leafToJsonable s))]) := by
    intro tag s p hp
    unfold termFromTagValue at hp
    by_cases htag : tag = "entity_ref"
    · rw [if_pos htag] at hp
      cases s with
      | str value =>
        obtain ⟨-, hp⟩ := bind_unit_ok_iff.mp hp
        cases hp
        exact .inl ⟨htag, value, rfl, termContent_entityRef host value⟩
      | none | bool | int | float | bytes => cases hp
    · rw [if_neg htag] at hp
      cases hp
      exact .inr ⟨htag, termContent_literal host tag _⟩
  rcases hread tag s p hp with ⟨rfl, value, rfl, hcontent⟩ | ⟨-, hcontent⟩ <;>
    rcases hread tag' s' p' hp' with ⟨rfl, value', rfl, hcontent'⟩ | ⟨-, hcontent'⟩ <;>
    rw [hcontent, hcontent'] at h
  · simp only [text, Doc.obj.injEq, List.cons.injEq, Prod.mk.injEq, Doc.leaf.injEq,
      JsonScalar.str.injEq, true_and, and_true] at h
    rw [h]
  · simp [text] at h
  · simp [text] at h
  · simp only [text, Doc.obj.injEq, List.cons.injEq, Prod.mk.injEq, Doc.leaf.injEq,
      JsonScalar.str.injEq, true_and, and_true] at h
    rw [h.1, leafToJsonable_inj hfinite hfinite' h.2]

theorem terms_of_contents {host : Host} {ts ts' : List Term} {ps ps' : List PyVal}
    (hts : ∀ t ∈ ts, IsScalar t) (hts' : ∀ t ∈ ts', IsScalar t)
    (hps : mapOk termFromTagValue ts = .ok ps) (hps' : mapOk termFromTagValue ts' = .ok ps')
    (h : ps.map (termContent host) = ps'.map (termContent host)) : ts = ts' := by
  rw [mapOk_ok_iff] at hps hps'
  induction hps generalizing ts' ps' with
  | nil =>
    cases hps' with
    | nil => rfl
    | cons => cases h
  | cons hp hps ih =>
    cases hps' with
    | nil => cases h
    | cons hp' hps' =>
      simp only [List.map_cons, List.cons.injEq] at h
      have hhead := term_of_termContent (hts _ (by simp)) (hts' _ (by simp)) hp hp' h.1
      have htail := ih (fun t ht => hts t (by simp [ht])) (fun t ht => hts' t (by simp [ht])) hps' h.2
      rw [hhead, htail]

theorem nulTerminated_last_inj {fs : List String} {s t : String}
    (h : nulTerminated (fs ++ [s]) = nulTerminated (fs ++ [t])) : s = t := by
  unfold nulTerminated at h
  rw [List.flatMap_append, List.flatMap_append] at h
  have hlast := List.append_cancel_left h
  rw [List.flatMap_singleton, List.flatMap_singleton] at hlast
  exact utf8_injective (List.append_cancel_right hlast)

theorem mapError_eq_ok {ε ε' α : Type} {x : Except ε α} {f : ε → ε'} {a : α} :
    x.mapError f = .ok a ↔ x = .ok a := by
  cases x <;> simp [Except.mapError]

section Keys

variable {host : Host} {float? : String → Option F64}
  (hfloat : FloatText host.floatRepr float?) (hsha : Function.Injective host.sha256)

include hfloat hsha

/-- Keys of one derivation tell the terms of the payload. -/
theorem contents_of_candidateKey {i v target key : String} {ps ps' : List PyVal}
    (h : computeCandidateKeyV2 host i v .fact target
      [("pred_id", .leaf (.str target)), ("terms", .list ps)] = .ok key)
    (h' : computeCandidateKeyV2 host i v .fact target
      [("pred_id", .leaf (.str target)), ("terms", .list ps')] = .ok key) :
    ps.map (termContent host) = ps'.map (termContent host) := by
  obtain ⟨c, hc, hkey⟩ := computeCandidateKeyV2_ok h
  obtain ⟨c', hc', hkey'⟩ := computeCandidateKeyV2_ok h'
  have hhex := (String.append_right_inj _).mp (hkey.symm.trans hkey')
  have hraw := List.append_cancel_left (hsha (hexdigest_inj hhex))
  have hdoc := (stableJson_iff hfloat).mp (nulTerminated_last_inj hraw)
  simp only [canonicalCandidateContent, getKey, Dict.get?, show ("terms" : String) ≠ "pred_id" by decide,
    if_false, if_true, Except.ok.injEq] at hc hc'
  subst hc hc'
  have hterms := (canonDoc_fact_iff.mp hdoc).2
  rw [List.map_map, List.map_map] at hterms
  exact hterms

/-! ## Rows of one key -/

omit hfloat hsha in
/-- The key of a candidate is computed whether it is given or not. -/
theorem candidateKey_of_postInit {args : OutputArgs} {a : DerivationOutput}
    (hkey : computeCandidateKeyV2 host args.derivationId args.derivationVersion args.candidateKind
      args.target args.payload = .ok args.candidateKey) (h : args.postInit host = .ok a) :
    a.candidateKey = args.candidateKey := by
  unfold OutputArgs.postInit at h
  obtain ⟨-, h⟩ := bind_unit_ok_iff.mp h
  obtain ⟨-, h⟩ := bind_unit_ok_iff.mp h
  obtain ⟨-, h⟩ := bind_unit_ok_iff.mp h
  obtain ⟨-, h⟩ := bind_unit_ok_iff.mp h
  obtain ⟨-, h⟩ := bind_unit_ok_iff.mp h
  obtain ⟨-, h⟩ := bind_unit_ok_iff.mp h
  have hread : ∀ key : String, (do
      require (startsWith "candk_v2:" key) (.valueError "candidate_key must start with 'candk_v2:'")
      let id := if args.candidateId ≠ "" then args.candidateId else
        computeCandidateIdV2 host args.runId args.candidateKind args.target key
      require (startsWith "cand_v2:" id) (.valueError "candidate_id must start with 'cand_v2:'")
      .ok
        { derivationId := args.derivationId
          derivationVersion := args.derivationVersion
          runId := args.runId
          target := args.target
          payload := args.payload
          candidateId := id
          candidateKey := key
          candidateKind := args.candidateKind } : Except StoreErr DerivationOutput) = .ok a →
        a.candidateKey = key := by
    intro key hout
    obtain ⟨-, hout⟩ := bind_unit_ok_iff.mp hout
    obtain ⟨-, hout⟩ := bind_unit_ok_iff.mp hout
    cases hout
    rfl
  by_cases hgiven : args.candidateKey ≠ ""
  · simp only [hgiven, if_true, ok_bind, not_false_eq_true, ne_eq] at h
    exact hread _ h
  · simp only [hgiven, if_false, hkey, ok_bind] at h
    exact hread _ h

omit hfloat hsha in
/-- The output for tagged arguments has the support it is given, and a key computed from them. -/
theorem taggedOutput_ok {head : FactHead} {indexes : List Nat} {supportDigest supportKind : String}
    {tagged : List Term} {o : BuiltOutput}
    (h : taggedOutput host head indexes supportDigest supportKind tagged = .ok o) :
    o.supportDigest = supportDigest ∧ o.supportKind = supportKind ∧
      ∃ terms, mapOk termFromTagValue tagged = .ok terms ∧
        computeCandidateKeyV2 host head.derivationId head.version .fact head.targetPredId
          [("pred_id", .leaf (.str head.targetPredId)), ("terms", .list terms)] =
            .ok o.candidateKey := by
  cases tagged with
  | nil => cases h
  | cons e restTerms =>
    unfold taggedOutput at h
    obtain ⟨-, h⟩ := bind_unit_ok_iff.mp h
    obtain ⟨restBytes, -, h⟩ := bind_ok_iff.mp h
    obtain ⟨dimsTerms, -, h⟩ := bind_ok_iff.mp h
    obtain ⟨terms, hterms, h⟩ := bind_ok_iff.mp h
    obtain ⟨confidenceKind, -, h⟩ := bind_ok_iff.mp h
    have hmade := mapError_eq_ok.mp h
    unfold makeDerivationOutput at hmade
    obtain ⟨-, hmade⟩ := bind_unit_ok_iff.mp hmade
    obtain ⟨-, hmade⟩ := bind_unit_ok_iff.mp hmade
    obtain ⟨-, hmade⟩ := bind_unit_ok_iff.mp hmade
    obtain ⟨-, hmade⟩ := bind_unit_ok_iff.mp hmade
    obtain ⟨keyBytes, -, hmade⟩ := bind_ok_iff.mp hmade
    obtain ⟨candidateKey, hkey, hmade⟩ := bind_ok_iff.mp hmade
    obtain ⟨output, houtput, hmade⟩ := bind_ok_iff.mp hmade
    cases hmade
    refine ⟨rfl, rfl, terms, mapError_eq_ok.mp hterms, ?_⟩
    have hsame := candidateKey_of_postInit hkey houtput
    rw [hsame]
    exact hkey

/-- Rows of one key and one support have one output. -/
theorem rowOutput_unique {head : FactHead} {indexes : List Nat} {row row' : BindingSupportCapture}
    {o o' : BuiltOutput} (h : rowOutput host head indexes row = .ok o)
    (h' : rowOutput host head indexes row' = .ok o') (hkey : o.candidateKey = o'.candidateKey)
    (hdigest : o.supportDigest = o'.supportDigest) (hkind : o.supportKind = o'.supportKind) :
    o = o' := by
  unfold rowOutput at h h'
  obtain ⟨tagged, htagged, h⟩ := bind_ok_iff.mp h
  obtain ⟨tagged', htagged', h'⟩ := bind_ok_iff.mp h'
  obtain ⟨hd, hk, terms, hterms, hcomputed⟩ := taggedOutput_ok h
  obtain ⟨hd', hk', terms', hterms', hcomputed'⟩ := taggedOutput_ok h'
  rw [← hkey] at hcomputed'
  have hcontents := contents_of_candidateKey hfloat hsha hcomputed hcomputed'
  have hsame : tagged = tagged' :=
    terms_of_contents (scalar_of_buildTaggedArgs (mapError_eq_ok.mp htagged))
      (scalar_of_buildTaggedArgs (mapError_eq_ok.mp htagged')) hterms hterms' hcontents
  subst hsame
  rw [← hd, hdigest, hd', ← hk, hkind, hk', h'] at h
  exact (Except.ok.inj h).symm

end Keys

/-! ## The order of the rows -/

theorem supportIsBetter_iff (a b : BuiltOutput) : supportIsBetter a b = true ↔
    toLex (a.supportDigest, a.supportKind) < toLex (b.supportDigest, b.supportKind) := by
  unfold supportIsBetter
  rw [Prod.Lex.toLex_lt_toLex]
  by_cases hlt : a.supportDigest < b.supportDigest
  · simp [hlt]
  · by_cases heq : a.supportDigest = b.supportDigest
    · simp [heq]
    · simp [hlt, heq]

theorem mapOk_perm {ε α β : Type} {f : α → Except ε β} {as as' : List α} {bs : List β}
    (hperm : as.Perm as') (h : mapOk f as = .ok bs) : ∃ bs', mapOk f as' = .ok bs' ∧ bs.Perm bs' := by
  rw [mapOk_ok_iff] at h
  obtain ⟨bs', hall, hbs⟩ := List.perm_comp_forall₂ hperm.symm h
  exact ⟨bs', mapOk_ok_iff.mpr hall, hbs.symm⟩

/-- The rows of the arguments in another order. -/
theorem coerceBindingRows_perm {rows rows' : Option (List BindingSupportCapture)}
    {bindings bindings' : Option (List Binding)} {out : List BindingSupportCapture}
    (hrows : Option.Rel List.Perm rows rows') (hbindings : Option.Rel List.Perm bindings bindings')
    (h : coerceBindingRows rows bindings = .ok out) :
    ∃ out', coerceBindingRows rows' bindings' = .ok out' ∧ out.Perm out' := by
  cases hrows with
  | none =>
    cases hbindings with
    | none => cases h
    | some hperm => exact mapOk_perm hperm h
  | some hperm =>
    cases hbindings with
    | none =>
      cases h
      exact ⟨_, rfl, hperm⟩
    | some => cases h

/-- What a call that returns has done: an output for every row, and of every key the best one. -/
theorem derivationOutputs_ok {host : Host} {head : FactHead}
    {rows : Option (List BindingSupportCapture)} {bindings : Option (List Binding)}
    {outs : List BuiltOutput} :
    derivationOutputsFromBindings host head rows bindings = .ok outs ↔
      ∃ indexes bindingRows outputs,
        readGroupKeyIndexes head.schemaPred head.argSpecs.length = .ok indexes ∧
        coerceBindingRows rows bindings = .ok bindingRows ∧
        mapOk (rowOutput host head indexes) bindingRows = .ok outputs ∧
        outs = BestPerKey.outputs (fun o : BuiltOutput => o.candidateKey) supportIsBetter outputs := by
  unfold derivationOutputsFromBindings
  constructor
  · intro h
    obtain ⟨indexes, hindexes, h⟩ := bind_ok_iff.mp h
    obtain ⟨bindingRows, hrows, h⟩ := bind_ok_iff.mp h
    obtain ⟨outputs, houtputs, h⟩ := bind_ok_iff.mp h
    exact ⟨indexes, bindingRows, outputs, mapError_eq_ok.mp hindexes, hrows, houtputs,
      (Except.ok.inj h).symm⟩
  · intro ⟨indexes, bindingRows, outputs, hindexes, hrows, houtputs, hout⟩
    have hread : ofRules (readGroupKeyIndexes head.schemaPred head.argSpecs.length) = .ok indexes :=
      mapError_eq_ok.mpr hindexes
    rw [hread, ok_bind, hrows, ok_bind, houtputs, ok_bind, hout]

theorem toOption_eq_some {ε α : Type} {x : Except ε α} {a : α} :
    x.toOption = some a ↔ x = .ok a := by
  cases x <;> simp [Except.toOption]

section Order

variable {host : Host} {float? : String → Option F64}
  (hfloat : FloatText host.floatRepr float?) (hsha : Function.Injective host.sha256)

include hfloat hsha

theorem derivationOutputs_perm_ok (head : FactHead) {rows rows' : Option (List BindingSupportCapture)}
    {bindings bindings' : Option (List Binding)} {outs : List BuiltOutput}
    (hrows : Option.Rel List.Perm rows rows') (hbindings : Option.Rel List.Perm bindings bindings')
    (h : derivationOutputsFromBindings host head rows bindings = .ok outs) :
    derivationOutputsFromBindings host head rows' bindings' = .ok outs := by
  obtain ⟨indexes, bindingRows, outputs, hindexes, hcoerced, houtputs, rfl⟩ := derivationOutputs_ok.mp h
  obtain ⟨bindingRows', hcoerced', hperm⟩ := coerceBindingRows_perm hrows hbindings hcoerced
  obtain ⟨outputs', houtputs', hsame⟩ := mapOk_perm hperm houtputs
  refine derivationOutputs_ok.mpr ⟨indexes, bindingRows', outputs', hindexes, hcoerced', houtputs', ?_⟩
  refine BestPerKey.outputs_perm supportIsBetter_iff hsame fun a ha b hb hkey hrank => ?_
  obtain ⟨row, -, hrow⟩ := mem_of_mapOk houtputs ha
  obtain ⟨row', -, hrow'⟩ := mem_of_mapOk houtputs hb
  have hsupport := Prod.mk.inj (toLex_inj.mp hrank)
  exact rowOutput_unique hfloat hsha hrow hrow' hkey hsupport.1 hsupport.2

end Order

/-- **The outputs of a derivation.** Whatever the head, another order of the rows gives the same
outputs. There is one for every key that a row produces and none besides; it is the output of a row of
the key, and no row of the key has a smaller support digest. -/
theorem derivationOutputs_order_independent {host : Host} {float? : String → Option F64}
    (hfloat : FloatText host.floatRepr float?) (hsha : Function.Injective host.sha256)
    (head : FactHead) :
    (∀ (rows rows' : Option (List BindingSupportCapture)) (bindings bindings' : Option (List Binding)),
      Option.Rel List.Perm rows rows' → Option.Rel List.Perm bindings bindings' →
        (derivationOutputsFromBindings host head rows bindings).toOption =
          (derivationOutputsFromBindings host head rows' bindings').toOption) ∧
    ∀ (rows : Option (List BindingSupportCapture)) (bindings : Option (List Binding))
      (outs : List BuiltOutput), derivationOutputsFromBindings host head rows bindings = .ok outs →
      ∃ indexes bindingRows,
        readGroupKeyIndexes head.schemaPred head.argSpecs.length = .ok indexes ∧
        coerceBindingRows rows bindings = .ok bindingRows ∧
        (outs.map fun o => o.candidateKey).Nodup ∧
        (∀ row ∈ bindingRows, ∃ o, rowOutput host head indexes row = .ok o ∧
          ∃ kept ∈ outs, kept.candidateKey = o.candidateKey) ∧
        ∀ kept ∈ outs, ∃ row ∈ bindingRows, rowOutput host head indexes row = .ok kept ∧
          kept.supportDigest = row.supportDigest ∧
          ∀ other ∈ bindingRows, ∀ o, rowOutput host head indexes other = .ok o →
            o.candidateKey = kept.candidateKey → row.supportDigest ≤ other.supportDigest := by
  constructor
  · intro rows rows' bindings bindings' hrows hbindings
    -- both directions are the same fact, the other way round
    have hback : Option.Rel List.Perm rows' rows := by
      cases hrows with
      | none => exact .none
      | some h => exact .some h.symm
    have hback' : Option.Rel List.Perm bindings' bindings := by
      cases hbindings with
      | none => exact .none
      | some h => exact .some h.symm
    apply Option.ext
    intro outs
    rw [toOption_eq_some, toOption_eq_some]
    constructor
    · intro h
      exact derivationOutputs_perm_ok hfloat hsha head hrows hbindings h
    · intro h
      exact derivationOutputs_perm_ok hfloat hsha head hback hback' h
  · intro rows bindings outs h
    obtain ⟨indexes, bindingRows, outputs, hindexes, hcoerced, houtputs, rfl⟩ :=
      derivationOutputs_ok.mp h
    have hsupport : ∀ row o, rowOutput host head indexes row = .ok o →
        o.supportDigest = row.supportDigest := by
      intro row o hrow
      obtain ⟨tagged, -, htagged⟩ := bind_ok_iff.mp hrow
      exact (taggedOutput_ok htagged).1
    refine ⟨indexes, bindingRows, hindexes, hcoerced, ?_, ?_, ?_⟩
    · refine List.pairwise_map.mpr ?_
      exact (BestPerKey.pairwise_outputs supportIsBetter_iff outputs).imp fun h => h.ne
    · intro row hrow
      obtain ⟨o, ho, hout⟩ := image_of_mapOk houtputs hrow
      exact ⟨o, hout, BestPerKey.exists_mem_outputs supportIsBetter_iff ho⟩
    · intro kept hkept
      obtain ⟨row, hrow, hout⟩ :=
        mem_of_mapOk houtputs (BestPerKey.mem_of_mem_outputs supportIsBetter_iff hkept)
      refine ⟨row, hrow, hout, hsupport row kept hout, ?_⟩
      intro other hother o ho hkey
      obtain ⟨o', ho', hout'⟩ := image_of_mapOk houtputs hother
      rw [ho] at hout'
      cases hout'
      have hle := BestPerKey.le_of_mem_outputs supportIsBetter_iff hkept ho' hkey
      have hdigest := Prod.Lex.monotone_fst _ _ hle
      rw [← hsupport row kept hout, ← hsupport other o ho]
      exact hdigest

/-- The head `person:age($p, $a)`. -/
def ageHead : FactHead where
  derivationId := "d"
  version := "1"
  runId := "r"
  targetPredId := "person:age"
  argSpecs := [.obj [("type_domain", .leaf (.str "entity_ref"))],
    .obj [("type_domain", .leaf (.str "int"))]]
  headVars := [.leaf (.str "$p"), .leaf (.str "$a")]
  schemaPred := [("group_key_indexes", .arr [.leaf (.int 0)])]
  confidenceKind := fun _ _ => .ok "none"

/-- A row that binds one person and one age. -/
def ageRow (age : Int) (supportDigest : String) (h : startsWith "sha256:" supportDigest = true) :
    BindingSupportCapture where
  bindingItems := [("$a", .leaf (.int age)), ("$p", .leaf (.str "idref_v1:p"))]
  supportDigest := supportDigest
  supportKind := "native_binding_v1"
  sorted := by
    have hkeys : "$a" ≤ "$p" := by decide
    simp [hkeys]
  keys_ne := by simp
  kind_ne := by decide
  digest_start := h

/-- Two supports of one age, in either order. -/
theorem derivationOutputs_ageRows :
    (derivationOutputsFromBindings plainHost ageHead
        (some [ageRow 30 "sha256:b" (by decide), ageRow 30 "sha256:a" (by decide)]) none).toOption =
      (derivationOutputsFromBindings plainHost ageHead
        (some [ageRow 30 "sha256:a" (by decide), ageRow 30 "sha256:b" (by decide)]) none).toOption := by
  have horder := (@derivationOutputs_order_independent plainHost bitsFloat? bits_floatText
    Function.injective_id ageHead).1
  exact horder _ _ none none (.some (List.Perm.swap _ _ [])) .none

end FactGraph.Derivation
