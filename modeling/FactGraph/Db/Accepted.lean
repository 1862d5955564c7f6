import FactGraph.Db.Effects
import FactGraph.Db.Tokens
import FactGraph.Evidence.Prepared
import FactGraph.Protocol.Framing

/-!
# Assertions that go through

What `_prepare_assertion` has established of an assertion it lets pass (`Accepted`) is what the
ledger asks for: its checks pass, and the rows are inserted under an id that is new.
-/

namespace FactGraph.Db

open Protocol Store Check Evidence

/-! ## What preparing establishes -/

/-- What is established of an assertion that was prepared. -/
structure Accepted (host : Host) (schemaDigest : String) (item : AssertionInput) (asrtId : String)
    (p : PreparedAssertion) : Prop where
  claim : p.claim = item.claim asrtId
  id : p.record.asrtId = asrtId
  predId : item.predId ≠ ""
  user : startsWith systemPrefix item.predId = false
  eRef : factRef item.factTuple ≠ ""
  terms : ∀ t ∈ item.factTuple.tail, t.1 ≠ "" ∧ ∃ atom, valAtomForClaimArg t.1 t.2 = .ok atom
  args : ∃ rows, claimArgsFromRestTerms item.factTuple.tail = .ok rows ∧
    p.claimArgs = Indexes.argRows asrtId rows
  metaRows : p.metaRows = item.entries.map (metaRowOf asrtId)
  annotations : p.annotationRows = annotationRows asrtId item.entries
  entries : ∀ e ∈ item.entries, e.key ≠ "" ∧ e.kind ∈ metaKinds ∧
    startsWith annotationCompatPrefix e.key = false ∧ ∃ s, encodeMetaValue e.kind e.value = .ok s
  distinct : (item.entries.map (·.key)).Nodup
  unreserved : ∀ key ∈ reservedAssertionMetaKeys, key ∉ item.entries.map (·.key)
  schema : requireToken schemaDigest "sha256:" "schema_digest" = .ok schemaDigest
  digest : ∃ raw, p.record.assertionDigest = sha256Token host.sha256 raw

theorem requireToken_ok {value start field token : String}
    (h : requireToken value start field = .ok token) : token = value := by
  unfold requireToken at h
  obtain ⟨_, h⟩ := bind_unit_ok_iff.mp h
  obtain ⟨_, h⟩ := bind_unit_ok_iff.mp h
  exact (Except.ok.inj h).symm

/-- An integer that fits in 64 bits can be written. -/
theorem hasDecimal_of_int64 {i : Int} {field : String} (h : requireInt64 i field = .ok ()) :
    hasDecimal i = true := by
  unfold requireInt64 at h
  have hrange := require_ok_iff.mp h
  simp only [Bool.and_eq_true, decide_eq_true_eq] at hrange
  apply hasDecimal_of_le
  omega

/-- A value that can be hashed can be stored. -/
theorem exists_encodeMetaValue {host : Host} {kind : String} {value : Datum} {raw : List UInt8}
    (h : metaValueBytes host kind value = .ok raw) :
    ∃ s, encodeMetaValue kind value = .ok s := by
  unfold metaValueBytes at h
  unfold encodeMetaValue
  split at h
  case h_7 => cases h
  case h_6 =>
    obtain ⟨doc, hdoc, -⟩ := map_ok_iff.mp h
    exact ⟨.json doc, by rw [hdoc]; rfl⟩
  case h_3 =>
    split at h
    next i =>
      split at h
      next x hx =>
        simp only [hx]
        exact ⟨_, rfl⟩
      next => cases h
    next x =>
      split at h
      next hfinite =>
        refine ⟨.float x.positiveZero, ?_⟩
        show (if x.isFinite then _ else _) = _
        rw [if_pos hfinite]
      next => cases h
    next => cases h
  case h_2 | h_5 =>
    split at h
    next i =>
      obtain ⟨_, hrange, -⟩ := map_ok_iff.mp h
      simp only [hasDecimal_of_int64 hrange, if_true]
      exact ⟨_, rfl⟩
    next => cases h
  all_goals
    split at h
    next => exact ⟨_, rfl⟩
    next => cases h

/-- The reference of a tuple that is encoded is not empty. -/
theorem factRef_ne_empty {factTuple : List Term} (h : normalizeFactTuple factTuple = .ok ()) :
    factRef factTuple ≠ "" ∧ ∃ raw, canonicalBytesTupV1 factTuple = .ok raw := by
  unfold normalizeFactTuple at h
  obtain ⟨hnonempty, h⟩ := bind_unit_ok_iff.mp h
  obtain ⟨hhead, h⟩ := bind_unit_ok_iff.mp h
  obtain ⟨raw, hraw, _⟩ := bind_ok_iff.mp h
  refine ⟨?_, raw, hraw⟩
  cases factTuple with
  | nil => simp [require] at hnonempty
  | cons t rest =>
    obtain ⟨tag, value⟩ := t
    have htag : tag = "entity_ref" := by simpa using hhead
    subst htag
    obtain ⟨_, body, _, hbody, _⟩ := canonicalBytesTupV1_ok_iff.mp hraw
    obtain ⟨_, hterm⟩ := termBytes_of_termsBytes hbody _ List.mem_cons_self
    obtain ⟨_, payload, _, _, hpayload, _⟩ := termBytes_ok_iff.mp hterm
    obtain ⟨s, hs, _⟩ := map_ok_iff.mp hpayload
    obtain ⟨rfl, hstart⟩ := requireEntityRef_ok hs
    show s ≠ ""
    rintro rfl
    revert hstart
    decide

theorem nodup_of_rejectDuplicates {entries : List MetaEntry} {context : String}
    (h : rejectDuplicateInitialMetaKeys entries context = .ok ()) :
    (entries.map (·.key)).Nodup := by
  rw [List.nodup_iff_count_le_one]
  intro key
  by_contra hcount
  have hmem : key ∈ entries.map (·.key) := List.count_pos_iff.mp (by omega)
  have hempty := List.isEmpty_iff.mp (require_ok_iff.mp h)
  have hdup : key ∈ (((entries.map (·.key)).filter fun k => 1 < (entries.map (·.key)).count k).dedup
      ).insertionSort (· ≤ ·) := by
    rw [List.mem_insertionSort, List.mem_dedup, List.mem_filter]
    exact ⟨hmem, by simpa using hcount⟩
  rw [hempty] at hdup
  cases hdup

theorem accepted_of_prepareAssertion {host : Host} {schemaDigest asrtId : String}
    {item : AssertionInput} {p : PreparedAssertion}
    (h : prepareAssertion host schemaDigest item asrtId = .ok p) :
    Accepted host schemaDigest item asrtId p := by
  have hclaim := prepareAssertion_claim h
  unfold prepareAssertion at h
  obtain ⟨huser, h⟩ := bind_unit_ok_iff.mp h
  obtain ⟨htuple, h⟩ := bind_unit_ok_iff.mp h
  obtain ⟨hinitial, h⟩ := bind_unit_ok_iff.mp h
  obtain ⟨digest, hdigest, h⟩ := bind_ok_iff.mp h
  obtain ⟨rows, hrows, h⟩ := bind_ok_iff.mp h
  cases h
  obtain ⟨href, raw, hraw⟩ := factRef_ne_empty htuple
  unfold checkInitialMeta at hinitial
  obtain ⟨hentries, hinitial⟩ := bind_unit_ok_iff.mp hinitial
  obtain ⟨hdistinct, hreserved⟩ := bind_unit_ok_iff.mp hinitial
  unfold rejectReservedMetaKeys at hreserved
  obtain ⟨hforged, hreserved⟩ := bind_unit_ok_iff.mp hreserved
  obtain ⟨bytes, hbytes, rfl⟩ := map_ok_iff.mp hdigest
  unfold canonicalBytesAssertionV1 at hbytes
  obtain ⟨hpred, hbytes⟩ := bind_unit_ok_iff.mp hbytes
  obtain ⟨token, htoken, hbytes⟩ := bind_ok_iff.mp hbytes
  obtain ⟨_, hbytes⟩ := bind_unit_ok_iff.mp hbytes
  obtain ⟨_, hbytes⟩ := bind_unit_ok_iff.mp hbytes
  obtain ⟨_, _, hbytes⟩ := bind_ok_iff.mp hbytes
  obtain ⟨_, hmeta, _⟩ := bind_ok_iff.mp hbytes
  obtain ⟨encoded, hencoded, _⟩ := bind_ok_iff.mp hmeta
  refine ⟨hclaim, rfl, by simpa using hpred, by simpa using huser, href, ?_, ⟨rows, hrows, rfl⟩, rfl,
    rfl, ?_, ?_, ?_, ?_, bytes, rfl⟩
  · exact fun t ht => canonical_terms hraw t (List.mem_of_mem_tail ht)
  · intro e he
    have hentry := each_ok_iff.mp hentries e he
    unfold normalizeMetaEntry at hentry
    obtain ⟨hkey, hkind⟩ := bind_unit_ok_iff.mp hentry
    obtain ⟨_, _, hvalue⟩ := image_of_mapOk hencoded he
    obtain ⟨_, hvalue, _⟩ := map_ok_iff.mp hvalue
    refine ⟨by simpa using hkey, by simpa using hkind, ?_, exists_encodeMetaValue hvalue⟩
    have hall := require_ok_iff.mp hforged
    rw [List.all_eq_true] at hall
    simpa using hall e.key (List.mem_map_of_mem he)
  · exact nodup_of_rejectDuplicates hdistinct
  · intro key hkey hmem
    have hempty := require_ok_iff.mp hreserved
    rw [List.isEmpty_iff, List.filter_eq_nil_iff] at hempty
    exact hempty key hkey (by simpa using hmem)
  · rwa [requireToken_ok htoken] at htoken

/-! ## What the ledger makes of it -/

namespace Accepted

variable {host : Host} {schemaDigest asrtId txId : String} {item : AssertionInput}
  {p : PreparedAssertion}

/-- The keys of the metadata of an assertion, the reserved ones at the end. -/
theorem keys (h : Accepted host schemaDigest item asrtId p) :
    (assertionWrite txId p).metaRows.map (·.key.text) =
      item.entries.map (·.key) ++ ["schema_digest", "assertion_digest", "tx_id"] := by
  unfold assertionWrite
  rw [List.map_append, h.metaRows, List.map_map]
  rfl

theorem nodup_keys (h : Accepted host schemaDigest item asrtId p) :
    ((assertionWrite txId p).metaRows.map (·.key.text)).Nodup := by
  rw [h.keys, List.nodup_append]
  refine ⟨h.distinct, by decide, ?_⟩
  intro key hkey other hother heq
  subst heq
  refine h.unreserved key ?_ hkey
  revert hother
  simp [reservedAssertionMetaKeys, or_comm, or_left_comm]

/-- Every row is one of the ledger's own, and carries the id. -/
theorem row (h : Accepted host schemaDigest item asrtId p) {r : MetaRow}
    (hr : r ∈ (assertionWrite txId p).metaRows) :
    r.asrtId = asrtId ∧ validateMetaRow r = .ok () ∧ r.kind ∈ metaKinds ∧
      ∃ s, encodeMetaValue r.kind r.value = .ok s := by
  rcases List.mem_append.mp hr with hr | hr
  · rw [h.metaRows] at hr
    obtain ⟨e, he, rfl⟩ := List.mem_map.mp hr
    obtain ⟨hkey, hkind, hforged, hencode⟩ := h.entries e he
    refine ⟨rfl, ?_, hkind, hencode⟩
    unfold validateMetaRow
    simp [metaRowOf, MetaKey.text, MetaKey.isForged, hkey, hkind, hforged, require, ok_bind]
  · simp only [List.mem_cons, List.not_mem_nil, or_false] at hr
    rcases hr with rfl | rfl | rfl
    all_goals exact ⟨h.id, rfl, List.mem_cons_self, _, rfl⟩

theorem encodable (h : Accepted host schemaDigest item asrtId p) :
    Ledger.Encodable (assertionWrite txId p).metaRows := fun _ hr => (h.row hr).2.2.2

/-- The annotations are those the metadata stands for. -/
theorem annotation (h : Accepted host schemaDigest item asrtId p) {a : AnnotationRow}
    (ha : a ∈ mergeAnnotationRows (initialMetaAnnotationRows (assertionWrite txId p).metaRows)
      (assertionWrite txId p).annotationRows) :
    a ∈ initialMetaAnnotationRows (assertionWrite txId p).metaRows := by
  rcases mem_mergeAnnotationRows ha with ha | ha
  · exact ha
  · have hrows : a ∈ annotationRows asrtId item.entries := by
      rw [← h.annotations]
      exact ha
    obtain ⟨e, he, hae⟩ := List.mem_filterMap.mp hrows
    refine List.mem_filterMap.mpr ⟨metaRowOf asrtId e, ?_, hae⟩
    unfold assertionWrite
    rw [h.metaRows]
    exact List.mem_append_left _ (List.mem_map_of_mem he)

/-- The item of the batch, as the ledger merges it. -/
theorem check_ok (h : Accepted host schemaDigest item asrtId p) (hid : asrtId ≠ "")
    {seen : List String} (hseen : asrtId ∉ seen) :
    Batch.checkAssertion seen { assertionWrite txId p with
      annotationRows := mergeAnnotationRows
        (initialMetaAnnotationRows (assertionWrite txId p).metaRows)
        (assertionWrite txId p).annotationRows } = .ok () := by
  have hclaim : (assertionWrite txId p).claim = item.claim asrtId := h.claim
  obtain ⟨rows, hrows, hargRows⟩ := h.args
  have hargs : (assertionWrite txId p).claimArgs = Indexes.argRows asrtId rows := hargRows
  -- the checks of the batch, in the order of the source
  have hvalidClaim : validateIdentifiedClaim (assertionWrite txId p).claim = .ok () := by
    rw [hclaim]
    unfold validateIdentifiedClaim validateClaimInput
    simp [AssertionInput.claim, hid, h.predId, h.eRef, h.user, require, ok_bind]
  have hvalidArgs : validateClaimArgsRows (assertionWrite txId p).claimArgs = .ok () := by
    rw [hargs]
    apply each_ok_iff.mpr
    intro row hrow
    obtain ⟨arg, harg, rfl⟩ := List.mem_map.mp hrow
    obtain ⟨t, ht, htag⟩ := tag_of_claimArgsFrom hrows arg harg
    exact require_of_true (by simpa [htag] using (h.terms t ht).1)
  have hvalidRows : validateMetaRows (assertionWrite txId p).metaRows = .ok () := by
    apply each_ok_iff.mpr
    intro r hr
    obtain ⟨hown, hvalid, _⟩ := h.row hr
    rw [hvalid, ok_bind]
    exact require_of_true (by simpa [hown] using hid)
  have hvalidAnnotations : validateAnnotationRows (mergeAnnotationRows
      (initialMetaAnnotationRows (assertionWrite txId p).metaRows)
      (assertionWrite txId p).annotationRows) = .ok () :=
    each_ok_iff.mpr fun a ha => validate_initialMetaAnnotation
      (fun r hr => ⟨(h.row hr).1 ▸ hid, (h.row hr).2.2.1⟩) (h.annotation ha)
  have hownArgs : ((assertionWrite txId p).claimArgs.all (·.asrtId = asrtId)) = true := by
    rw [hargs]
    simp [Indexes.argRows]
  have hownRows : ((assertionWrite txId p).metaRows.all (·.asrtId = asrtId)) = true := by
    rw [List.all_eq_true]
    intro r hr
    simpa using (h.row hr).1
  have hownAnnotations : ((mergeAnnotationRows
      (initialMetaAnnotationRows (assertionWrite txId p).metaRows)
      (assertionWrite txId p).annotationRows).all (·.asrtId = asrtId)) = true := by
    rw [List.all_eq_true]
    intro a ha
    obtain ⟨r, hr, hra⟩ := List.mem_filterMap.mp (h.annotation ha)
    unfold initialMetaAnnotationRow at hra
    obtain ⟨⟨category, origin⟩, _, rfl⟩ := Option.map_eq_some_iff.mp hra
    simpa using (h.row hr).1
  have hclaimId : (assertionWrite txId p).claim.asrtId = asrtId := by rw [hclaim]; rfl
  unfold Batch.checkAssertion
  simp only [hvalidClaim, hvalidArgs, hvalidRows, rejectDuplicateMetaKeys_of_nodup h.nodup_keys,
    hvalidAnnotations, hclaimId, hownArgs, hownRows, hownAnnotations, ok_bind]
  simp [require, hseen]

theorem storable (h : Accepted host schemaDigest item asrtId p) (hid : asrtId ≠ "") :
    (item.claim asrtId).Storable where
  identity := by
    unfold validateClaimIdentity
    simp [AssertionInput.claim, hid, h.predId, h.eRef, require, ok_bind]
  terms := each_ok_iff.mpr fun t ht => require_of_true (by simpa using (h.terms t ht).1)
  encoded := exists_encodeTerms fun t ht => (h.terms t ht).2

end Accepted

end FactGraph.Db
