import FactGraph.Evidence.WriteProtocol
import FactGraph.Store.Outcomes

/-!
# What the write protocol hands to the ledger

A write that `set_field` prepares satisfies everything `append_assertion` checks. Its metadata is one
row for every key, under two rows of its own; its annotations are those the metadata stands for, so
that they need no rows. What is left for the ledger to refuse is an id that is in use, a float that
is not finite and an integer that Python does not write.
-/

namespace FactGraph.Evidence

open Protocol Store Check

/-! ## Normalized metadata -/

/-- What a key of normalized metadata is not. -/
structure UserKey (key : String) : Prop where
  nonempty : key ≠ ""
  unreserved : startsWith annotationCompatPrefix key = false
  unmanaged : key ∉ systemManagedMetaKeys

theorem userKey_of_check {key : String} (h : checkMetaKey key = .ok ()) : UserKey key := by
  unfold checkMetaKey at h
  obtain ⟨hempty, h⟩ := bind_unit_ok_iff.mp h
  obtain ⟨hreserved, h⟩ := bind_unit_ok_iff.mp h
  exact ⟨by simpa using hempty, by simpa using hreserved, by simpa using h⟩

theorem normalizeRaw_keys {m m' : MetaDict} (h : normalizeRawUncertaintyMeta m = .ok m') :
    ∀ key ∈ Dict.keys m'.entries, key ∈ Dict.keys m.entries := by
  unfold normalizeRawUncertaintyMeta at h
  obtain ⟨hboth, h⟩ := bind_unit_ok_iff.mp h
  by_cases hraw : m.has "raw_kind" = true
  · rw [if_pos hraw] at h
    obtain ⟨_, h⟩ := bind_unit_ok_iff.mp h
    obtain ⟨bound, _, h⟩ := bind_ok_iff.mp h
    cases h
    intro key hkey
    have hbound : m.has "bound" = true := by simpa [hraw] using hboth
    rcases Dict.mem_keys_set.mp hkey with rfl | hkey
    · exact Dict.has_iff.mp hbound
    · exact hkey
  · rw [if_neg hraw] at h
    cases h
    exact fun key hkey => hkey

theorem normalizeMeta_keys {m : Option MetaDict} {m' : MetaDict} (h : normalizeMeta m = .ok m') :
    ∀ p ∈ m'.entries, UserKey p.1 := by
  intro p hp
  have hkey : p.1 ∈ Dict.keys m'.entries := List.mem_map_of_mem hp
  unfold normalizeMeta at h
  cases m with
  | none =>
    cases h
    cases hp
  | some m =>
    obtain ⟨hkeys, h⟩ := bind_unit_ok_iff.mp h
    obtain ⟨_, h⟩ := bind_unit_ok_iff.mp h
    obtain ⟨q, hq, hqp⟩ := List.mem_map.mp (normalizeRaw_keys h p.1 hkey)
    rw [← hqp]
    exact userKey_of_check (each_ok_iff.mp hkeys q hq)

namespace MetaDict

theorem mem_sorted {m : MetaDict} {p : String × Datum} : p ∈ m.sorted ↔ p ∈ m.entries :=
  List.mem_insertionSort _

theorem nodup_sorted (m : MetaDict) : (m.sorted.map Prod.fst).Nodup :=
  ((List.perm_insertionSort _ m.entries).map Prod.fst).nodup_iff.mpr m.distinct

end MetaDict

/-! ## Rows -/

/-- The row of one entry of the metadata. -/
structure RowOf (asrtId : String) (p : String × Datum) (r : MetaRow) : Prop where
  asrtId : r.asrtId = asrtId
  key : r.key = .plain p.1
  kind : inferMetaKind p.1 p.2 = .ok r.kind
  value : r.value = p.2

theorem rowOf_of_ok {asrtId : String} {p : String × Datum} {r : MetaRow}
    (h : ((inferMetaKind p.1 p.2).map fun kind => (⟨asrtId, .plain p.1, kind, p.2⟩ : MetaRow)) =
      .ok r) : RowOf asrtId p r := by
  obtain ⟨kind, hkind, rfl⟩ := map_ok_iff.mp h
  exact ⟨rfl, rfl, hkind, rfl⟩

variable {asrtId : String} {m : MetaDict}

theorem userMetaRows_of_user (hm : ∀ p ∈ m.entries, UserKey p.1) :
    userMetaRows asrtId m = mapOk (fun p => (inferMetaKind p.1 p.2).map fun kind =>
      ⟨asrtId, .plain p.1, kind, p.2⟩) m.sorted := by
  unfold userMetaRows
  rw [List.filter_eq_self.mpr]
  intro p hp
  have huser := (hm p (MetaDict.mem_sorted.mp hp)).unmanaged
  simpa using huser

/-- The rows of a retraction's or a claim's metadata, one for every entry. -/
theorem userMetaRows_spec (hm : ∀ p ∈ m.entries, UserKey p.1) {rows : List MetaRow}
    (h : userMetaRows asrtId m = .ok rows) :
    (∀ r ∈ rows, ∃ p ∈ m.entries, RowOf asrtId p r) ∧
      (∀ p ∈ m.entries, ∃ r ∈ rows, RowOf asrtId p r) ∧
      rows.map (·.key) = m.sorted.map fun p => .plain p.1 := by
  rw [userMetaRows_of_user hm] at h
  refine ⟨?_, ?_, map_of_mapOk h fun p r hr => (rowOf_of_ok hr).key⟩
  · intro r hr
    obtain ⟨p, hp, hpr⟩ := mem_of_mapOk h hr
    exact ⟨p, MetaDict.mem_sorted.mp hp, rowOf_of_ok hpr⟩
  · intro p hp
    obtain ⟨r, hr, hpr⟩ := image_of_mapOk h (MetaDict.mem_sorted.mpr hp)
    exact ⟨r, hr, rowOf_of_ok hpr⟩

theorem inferMetaKind_mem {key kind : String} {value : Datum}
    (h : inferMetaKind key value = .ok kind) : kind ∈ metaKinds := by
  unfold inferMetaKind at h
  split at h
  next k hk =>
    obtain ⟨_, _, rfl⟩ := map_ok_iff.mp h
    unfold keyKind? at hk
    (repeat' split at hk) <;> cases hk <;> simp [metaKinds]
  next =>
    unfold inferMetaKindByValue at h
    (repeat' split at h) <;> cases h <;> simp [metaKinds]

/-- A row with the key of a user passes the checks of the ledger. -/
theorem validate_rowOf {p : String × Datum} {r : MetaRow} (hp : UserKey p.1)
    (hr : RowOf asrtId p r) : validateMetaRow r = .ok () := by
  unfold validateMetaRow
  rw [require_of_true (by simpa using inferMetaKind_mem hr.kind)]
  simp [hr.key, MetaKey.text, MetaKey.isForged, hp.nonempty, hp.unreserved, require, ok_bind]

/-- The two rows of its own that a claim starts with. -/
def ownRows (asrtId ingestKey : String) (ingestedAt : Int64) : List MetaRow :=
  [⟨asrtId, .plain "ingested_at", "time", .leaf (.int ingestedAt.toInt)⟩,
    ⟨asrtId, .plain "ingest_key", "str", .leaf (.str ingestKey)⟩]

theorem metaRowsForClaim_eq {ingestKey : String} {ingestedAt : Int64} {rows : List MetaRow}
    (h : metaRowsForClaim asrtId m ingestKey ingestedAt = .ok rows) :
    ∃ users, userMetaRows asrtId m = .ok users ∧
      rows = ownRows asrtId ingestKey ingestedAt ++ users := by
  obtain ⟨users, husers, rfl⟩ := map_ok_iff.mp h
  exact ⟨users, husers, rfl⟩

/-- The keys of a claim's metadata are distinct. -/
theorem nodup_keys (hm : ∀ p ∈ m.entries, UserKey p.1) {ingestKey : String} {ingestedAt : Int64}
    {users : List MetaRow} (h : userMetaRows asrtId m = .ok users) :
    ((ownRows asrtId ingestKey ingestedAt ++ users).map (·.key.text)).Nodup := by
  obtain ⟨_, _, hkeys⟩ := userMetaRows_spec hm h
  have htexts : users.map (·.key.text) = m.sorted.map Prod.fst := by
    have h := congrArg (List.map MetaKey.text) hkeys
    simpa [List.map_map, Function.comp_def, MetaKey.text] using h
  rw [List.map_append, htexts]
  refine List.nodup_append.mpr ⟨by simp [ownRows, MetaKey.text], m.nodup_sorted, ?_⟩
  intro key hkey other hother heq
  obtain ⟨p, hp, rfl⟩ := List.mem_map.mp hother
  have hmanaged : key ∈ systemManagedMetaKeys := by
    have hown : key = "ingested_at" ∨ key = "ingest_key" := by
      simpa [ownRows, MetaKey.text] using hkey
    rcases hown with rfl | rfl <;> decide
  exact (hm p (MetaDict.mem_sorted.mp hp)).unmanaged (heq ▸ hmanaged)

theorem rejectDuplicateMetaKeys_of_nodup {rows : List MetaRow}
    (h : (rows.map (·.key.text)).Nodup) (context : String) :
    rejectDuplicateMetaKeys context rows = .ok () := by
  unfold rejectDuplicateMetaKeys
  apply require_of_true
  have hnone : (rows.map (·.key.text)).filter
      (fun k => 1 < (rows.map (·.key.text)).count k) = [] := by
    apply List.filter_eq_nil_iff.mpr
    intro key _
    have hcount := List.nodup_iff_count_le_one.mp h key
    simpa using hcount
  simp [hnone]

/-! ## Annotations -/

/-- A shared key has a kind of its own, so both projections of the metadata agree on it. -/
theorem keyKind_of_shared {key category origin : String}
    (h : sharedAnnotationKey? key = some (category, origin)) : ∃ kind, keyKind? key = some kind := by
  unfold sharedAnnotationKey? at h
  split at h
  case h_8 => cases h
  case h_7 => exact ⟨"json", by decide⟩
  all_goals exact ⟨"str", by decide⟩

theorem annotationRowFor_shared {p : String × Datum} {category origin kind : String}
    (hshared : sharedAnnotationKey? p.1 = some (category, origin)) (hkind : keyKind? p.1 = some kind) :
    annotationRowFor asrtId p =
      .ok (some ⟨asrtId, "shared", category, p.1, kind, p.2, origin, none⟩) := by
  unfold annotationRowFor
  simp only [hshared, hkind, ok_bind]

theorem exists_annotationRows (asrtId : String) (m : MetaDict) :
    ∃ rows, annotationRowsForClaim asrtId m = .ok rows := by
  obtain ⟨options, hoptions⟩ : ∃ options, mapOk (annotationRowFor asrtId) m.sorted = .ok options := by
    apply exists_mapOk
    intro p _
    cases hshared : sharedAnnotationKey? p.1 with
    | none => exact ⟨none, by simp [annotationRowFor, hshared]⟩
    | some co =>
      obtain ⟨kind, hkind⟩ := keyKind_of_shared hshared
      exact ⟨_, annotationRowFor_shared hshared hkind⟩
  unfold annotationRowsForClaim
  rw [hoptions]
  exact ⟨_, rfl⟩

/-- Every annotation of a claim is one its metadata stands for. -/
theorem annotationRows_of_meta (hm : ∀ p ∈ m.entries, UserKey p.1) {users : List MetaRow}
    (husers : userMetaRows asrtId m = .ok users) {annotationRows : List AnnotationRow}
    (h : annotationRowsForClaim asrtId m = .ok annotationRows) :
    ∀ a ∈ annotationRows, a ∈ initialMetaAnnotationRows users := by
  obtain ⟨options, hoptions, rfl⟩ := map_ok_iff.mp h
  intro a ha
  obtain ⟨o, ho, hoa⟩ := List.mem_filterMap.mp ha
  obtain rfl : o = some a := hoa
  obtain ⟨p, hp, hpa⟩ := mem_of_mapOk hoptions ho
  cases hshared : sharedAnnotationKey? p.1 with
  | none => simp [annotationRowFor, hshared] at hpa
  | some co =>
    obtain ⟨category, origin⟩ := co
    obtain ⟨kind, hkind⟩ := keyKind_of_shared hshared
    rw [annotationRowFor_shared hshared hkind] at hpa
    simp only [Except.ok.injEq, Option.some.injEq] at hpa
    obtain ⟨_, hrows, _⟩ := userMetaRows_spec hm husers
    obtain ⟨r, hr, hrow⟩ := hrows p (MetaDict.mem_sorted.mp hp)
    have hrkind : r.kind = kind := by
      have hinfer := hrow.kind
      unfold inferMetaKind at hinfer
      simp only [hkind] at hinfer
      obtain ⟨_, _, heq⟩ := map_ok_iff.mp hinfer
      exact heq.symm
    refine List.mem_filterMap.mpr ⟨r, hr, ?_⟩
    unfold initialMetaAnnotationRow
    rw [hrow.key]
    simp only [MetaKey.text, hshared, Option.map_some, Option.some.injEq]
    rw [← hpa, hrow.asrtId, hrow.value, hrkind]

theorem mem_mergeAnnotationRows {contract explicit : List AnnotationRow} {a : AnnotationRow}
    (h : a ∈ mergeAnnotationRows contract explicit) : a ∈ contract ∨ a ∈ explicit := by
  unfold mergeAnnotationRows at h
  rw [← List.mem_append]
  generalize contract ++ explicit = rows at h ⊢
  -- every value of the dictionary was among the rows
  suffices hall : ∀ (rows : List AnnotationRow)
      (merged : List ((String × String × String × String) × AnnotationRow)),
      ∀ p ∈ rows.foldl (fun merged row => Dict.set merged row.slot row) merged,
        p ∈ merged ∨ p.2 ∈ rows by
    obtain ⟨p, hp, rfl⟩ := List.mem_map.mp h
    rcases hall rows [] p hp with hnil | hmem
    · cases hnil
    · exact hmem
  intro rows
  induction rows with
  | nil => exact fun merged p hp => .inl hp
  | cons row rows ih =>
    intro merged p hp
    rcases ih (Dict.set merged row.slot row) p hp with hset | hmem
    · rcases Dict.mem_set hset with hp | rfl
      · exact .inl hp
      · exact .inr List.mem_cons_self
    · exact .inr (List.mem_cons_of_mem _ hmem)

/-- Annotations the metadata stands for pass the checks of the ledger. -/
theorem validate_initialMetaAnnotation {rows : List MetaRow}
    (hrows : ∀ r ∈ rows, r.asrtId ≠ "" ∧ r.kind ∈ metaKinds) {a : AnnotationRow}
    (ha : a ∈ initialMetaAnnotationRows rows) : validateAnnotationRow a = .ok () := by
  obtain ⟨r, hr, hra⟩ := List.mem_filterMap.mp ha
  obtain ⟨hid, hkind⟩ := hrows r hr
  unfold initialMetaAnnotationRow at hra
  obtain ⟨⟨category, origin⟩, hshared, rfl⟩ := Option.map_eq_some_iff.mp hra
  have hknown : category ∈ annotationCategories ∧ origin ∈ annotationOrigins ∧
      origin ≠ "derived" ∧ r.key.text ≠ "" := by
    unfold sharedAnnotationKey? at hshared
    split at hshared <;> cases hshared
    all_goals
      rename_i hkey
      rw [hkey]
      decide
  obtain ⟨hcategory, horigin, hobserved, hkey⟩ := hknown
  unfold validateAnnotationRow
  simp [require, hid, hkind, hcategory, horigin, hobserved, hkey, ok_bind]

/-- Annotations the metadata stands for need no rows of their own. -/
theorem compatibility_nil {rows : List MetaRow} (hencode : Ledger.Encodable rows)
    {annotationRows : List AnnotationRow}
    (h : ∀ a ∈ annotationRows, a ∈ initialMetaAnnotationRows rows) :
    annotationCompatibilityMetaRows annotationRows rows = .ok [] := by
  have hidentity : ∀ a ∈ initialMetaAnnotationRows rows, ∃ id, annotationIdentity a = .ok id := by
    intro a ha
    obtain ⟨r, hr, hra⟩ := List.mem_filterMap.mp ha
    obtain ⟨s, hs⟩ := hencode r hr
    unfold initialMetaAnnotationRow at hra
    obtain ⟨⟨category, origin⟩, _, rfl⟩ := Option.map_eq_some_iff.mp hra
    unfold annotationIdentity
    rw [hs]
    exact ⟨_, rfl⟩
  obtain ⟨reproducible, hreproducible⟩ := exists_mapOk hidentity
  unfold annotationCompatibilityMetaRows
  rw [hreproducible, ok_bind]
  induction annotationRows with
  | nil => rfl
  | cons a annotationRows ih =>
    obtain ⟨id, hid, ha⟩ := image_of_mapOk hreproducible (h a List.mem_cons_self)
    unfold withoutReproducible
    rw [ha, ok_bind, ih fun b hb => h b (List.mem_cons_of_mem a hb), ok_bind, if_pos hid]

/-! ## The arguments of `append_assertion` -/

/-- What `set_field` has established when it asks for an id. -/
structure Prepared (w : FieldWrite) (m : MetaDict) (ingestKey : String) : Prop where
  predId : w.predId ≠ ""
  user : startsWith systemPrefix w.predId = false
  eRef : w.eRef ≠ ""
  terms : ∀ t ∈ w.restTerms, t.1 ≠ "" ∧ ∃ atom, valAtomForClaimArg t.1 t.2 = .ok atom
  keys : ∀ p ∈ m.entries, UserKey p.1
  ingestKey : ingestKey ≠ ""

theorem validateWriteInputs_spec {predId eRef : String} {restTerms : List Term}
    (h : validateWriteInputs predId eRef restTerms = .ok ()) :
    predId ≠ "" ∧ startsWith systemPrefix predId = false ∧ eRef ≠ "" ∧
      ∃ raw, canonicalBytesTupV1 restTerms = .ok raw := by
  unfold validateWriteInputs at h
  obtain ⟨hpred, h⟩ := bind_unit_ok_iff.mp h
  obtain ⟨huser, h⟩ := bind_unit_ok_iff.mp h
  obtain ⟨href, h⟩ := bind_unit_ok_iff.mp h
  refine ⟨by simpa using hpred, by simpa using huser, by simpa using href, ?_⟩
  cases hraw : canonicalBytesTupV1 restTerms with
  | ok raw => exact ⟨raw, rfl⟩
  | error e => cases e <;> simp [hraw] at h

theorem computeIngestKey_ne_empty {sha256 : List UInt8 → List UInt8} {predId eRef : String}
    {restTerms : List Term} {ingestKey : String}
    (h : computeIngestKey sha256 predId eRef restTerms m = .ok ingestKey) : ingestKey ≠ "" := by
  unfold computeIngestKey at h
  obtain ⟨_, h⟩ := bind_unit_ok_iff.mp h
  obtain ⟨_, h⟩ := bind_unit_ok_iff.mp h
  obtain ⟨_, h⟩ := bind_unit_ok_iff.mp h
  obtain ⟨raw, _, h⟩ := bind_ok_iff.mp h
  cases h
  intro hempty
  have hlist := congrArg String.toList hempty
  simp at hlist

theorem prepared_of_ok {sha256 : List UInt8 → List UInt8} {w : FieldWrite} {ingestKey : String}
    (h : w.prepare sha256 = .ok (m, ingestKey)) : Prepared w m ingestKey := by
  unfold FieldWrite.prepare at h
  obtain ⟨hinputs, h⟩ := bind_unit_ok_iff.mp h
  obtain ⟨m', hm, h⟩ := bind_ok_iff.mp h
  obtain ⟨key, hkey, h⟩ := bind_ok_iff.mp h
  cases h
  obtain ⟨hpred, huser, href, raw, hraw⟩ := validateWriteInputs_spec hinputs
  exact ⟨hpred, huser, href, canonical_terms hraw, normalizeMeta_keys hm,
    computeIngestKey_ne_empty hkey⟩

/-- The parts `set_field` builds its arguments from. -/
structure Parts (w : FieldWrite) (m : MetaDict) (asrtId : String) where
  rows : List ArgRow
  users : List MetaRow
  annotationRows : List AnnotationRow
  rows_ok : claimArgsFromRestTerms w.restTerms = .ok rows
  users_ok : userMetaRows asrtId m = .ok users
  annotationRows_ok : annotationRowsForClaim asrtId m = .ok annotationRows

/-- The claim a write makes. -/
def FieldWrite.claim (w : FieldWrite) (asrtId : String) : Claim :=
  ⟨asrtId, w.predId, w.eRef, w.restTerms⟩

/-- The arguments made of the parts. -/
def Parts.args {w : FieldWrite} (parts : Parts w m asrtId) (ingestKey : String) (ingestedAt : Int64) :
    Ledger.AssertionArgs where
  claim := w.claim asrtId
  claimArgs := Indexes.argRows asrtId parts.rows
  metaRows := ownRows asrtId ingestKey ingestedAt ++ parts.users
  annotationRows := parts.annotationRows
  idempotency := some ⟨ingestKey, .skip⟩
  asrtId := some asrtId

theorem parts_of_ok {w : FieldWrite} {ingestKey : String} {ingestedAt : Int64}
    {args : Ledger.AssertionArgs} (h : w.assertionArgs m ingestKey asrtId ingestedAt = .ok args) :
    ∃ parts : Parts w m asrtId, args = parts.args ingestKey ingestedAt := by
  unfold FieldWrite.assertionArgs at h
  obtain ⟨rows, hrows, h⟩ := bind_ok_iff.mp h
  obtain ⟨metaRows, hmeta, h⟩ := bind_ok_iff.mp h
  obtain ⟨annotationRows, hannotations, h⟩ := bind_ok_iff.mp h
  obtain ⟨users, husers, rfl⟩ := metaRowsForClaim_eq hmeta
  cases h
  exact ⟨⟨rows, users, annotationRows, hrows, husers, hannotations⟩, rfl⟩

theorem effectiveId_self (asrtId : String) :
    Ledger.effectiveId (some asrtId) asrtId "" = asrtId := by
  unfold Ledger.effectiveId
  by_cases h : asrtId = "" <;> simp [h]

theorem tag_of_claimArgsFrom {terms : List Term} {idx : Nat} {rows : List ArgRow}
    (h : claimArgsFrom idx terms = .ok rows) : ∀ row ∈ rows, ∃ t ∈ terms, row.tag = t.1 := by
  induction terms generalizing idx rows with
  | nil =>
    cases h
    simp
  | cons t terms ih =>
    obtain ⟨tag, value⟩ := t
    unfold claimArgsFrom at h
    obtain ⟨atom, _, h⟩ := bind_ok_iff.mp h
    obtain ⟨rest, hrest, h⟩ := bind_ok_iff.mp h
    cases h
    intro row hrow
    rcases List.mem_cons.mp hrow with rfl | hrow
    · exact ⟨(tag, value), List.mem_cons_self, rfl⟩
    · obtain ⟨t, ht, htag⟩ := ih hrest row hrow
      exact ⟨t, List.mem_cons_of_mem _ ht, htag⟩

namespace Parts

variable {w : FieldWrite} {ingestKey : String} (parts : Parts w m asrtId)

/-- Every row of the arguments belongs to the claim. -/
theorem metaRows_asrtId (hw : Prepared w m ingestKey) (ingestedAt : Int64) :
    ∀ r ∈ (parts.args ingestKey ingestedAt).metaRows, r.asrtId = asrtId := by
  intro r hr
  rcases List.mem_append.mp hr with hr | hr
  · have hown : r = ⟨asrtId, .plain "ingested_at", "time", .leaf (.int ingestedAt.toInt)⟩ ∨
        r = ⟨asrtId, .plain "ingest_key", "str", .leaf (.str ingestKey)⟩ := by
      simpa [ownRows] using hr
    rcases hown with rfl | rfl <;> rfl
  · obtain ⟨p, _, hrow⟩ := (userMetaRows_spec hw.keys parts.users_ok).1 r hr
    exact hrow.asrtId

theorem map_asrtId {rows : List MetaRow} (h : ∀ r ∈ rows, r.asrtId = asrtId) :
    (rows.map fun row => { row with asrtId := asrtId }) = rows := by
  have hid : rows.map (fun row => { row with asrtId := asrtId }) = rows.map id := by
    apply List.map_congr_left
    intro r hr
    rw [← h r hr]
    rfl
  rw [hid, List.map_id]

theorem validate_metaRows (hw : Prepared w m ingestKey) (ingestedAt : Int64) :
    validateMetaRowsForAppendAssertion (parts.args ingestKey ingestedAt).metaRows = .ok () := by
  apply each_ok_iff.mpr
  intro r hr
  rcases List.mem_append.mp hr with hr | hr
  · have hown : r = ⟨asrtId, .plain "ingested_at", "time", .leaf (.int ingestedAt.toInt)⟩ ∨
        r = ⟨asrtId, .plain "ingest_key", "str", .leaf (.str ingestKey)⟩ := by
      simpa [ownRows] using hr
    rcases hown with rfl | rfl <;> rfl
  · obtain ⟨p, hp, hrow⟩ := (userMetaRows_spec hw.keys parts.users_ok).1 r hr
    rw [validate_rowOf (hw.keys p hp) hrow, ok_bind, hrow.key]
    exact require_of_true (by simp [MetaKey.text])

/-- **The ledger's checks accept what `set_field` prepares.** -/
theorem check_ok (hw : Prepared w m ingestKey) (ingestedAt : Int64) :
    Ledger.checkAssertion (parts.args ingestKey ingestedAt) =
      .ok (parts.args ingestKey ingestedAt).metaRows := by
  have hclaim : validateClaimInput (parts.args ingestKey ingestedAt).claim = .ok () := by
    unfold validateClaimInput
    simp [args, FieldWrite.claim, hw.predId, hw.eRef, hw.user, require, ok_bind]
  have hargs : validateClaimArgsRows (parts.args ingestKey ingestedAt).claimArgs = .ok () := by
    apply each_ok_iff.mpr
    intro row hrow
    obtain ⟨arg, harg, rfl⟩ := List.mem_map.mp hrow
    obtain ⟨t, ht, htag⟩ := tag_of_claimArgsFrom parts.rows_ok arg harg
    exact require_of_true (by simpa [htag] using (hw.terms t ht).1)
  have hdistinct : rejectDuplicateMetaKeys "assertion initial meta"
      (parts.args ingestKey ingestedAt).metaRows = .ok () :=
    rejectDuplicateMetaKeys_of_nodup (nodup_keys hw.keys parts.users_ok) _
  have hid : Ledger.effectiveId (parts.args ingestKey ingestedAt).asrtId
      (parts.args ingestKey ingestedAt).claim.asrtId
      (parts.args ingestKey ingestedAt).newId = asrtId := effectiveId_self asrtId
  unfold Ledger.checkAssertion
  rw [hclaim, ok_bind, hargs, ok_bind, parts.validate_metaRows hw ingestedAt, ok_bind, hdistinct,
    ok_bind]
  simp only [hid, map_asrtId (parts.metaRows_asrtId hw ingestedAt)]
  -- the key's own row is the one `_materialize_idempotency_meta` finds
  unfold Ledger.materializeIdempotencyMeta
  simp [args, ownRows, MetaKey.text, hw.ingestKey, require, ok_bind]

/-! ## What the ledger makes of them -/

/-- The annotations the ledger merges are all annotations the metadata stands for. -/
theorem merged_of_meta (hw : Prepared w m ingestKey) (ingestedAt : Int64) :
    ∀ a ∈ mergeAnnotationRows
        (initialMetaAnnotationRows (parts.args ingestKey ingestedAt).metaRows) parts.annotationRows,
      a ∈ initialMetaAnnotationRows (parts.args ingestKey ingestedAt).metaRows := by
  intro a ha
  rcases mem_mergeAnnotationRows ha with ha | ha
  · exact ha
  · have husers := annotationRows_of_meta hw.keys parts.users_ok parts.annotationRows_ok a ha
    unfold initialMetaAnnotationRows args
    rw [List.filterMap_append]
    exact List.mem_append_right _ husers

theorem metaRows_valid (hw : Prepared w m ingestKey) (hid : asrtId ≠ "") (ingestedAt : Int64) :
    ∀ r ∈ (parts.args ingestKey ingestedAt).metaRows, r.asrtId ≠ "" ∧ r.kind ∈ metaKinds := by
  intro r hr
  refine ⟨by rwa [parts.metaRows_asrtId hw ingestedAt r hr], ?_⟩
  have hvalid := each_ok_iff.mp (parts.validate_metaRows hw ingestedAt) r hr
  have hrow := (bind_unit_ok_iff.mp hvalid).1
  unfold validateMetaRow at hrow
  simpa using (bind_unit_ok_iff.mp hrow).1

theorem build_ok (hw : Prepared w m ingestKey) (hid : asrtId ≠ "") (ingestedAt : Int64) :
    Ledger.buildAssertion (parts.args ingestKey ingestedAt)
        (parts.args ingestKey ingestedAt).metaRows =
      .ok ⟨w.claim asrtId, (parts.args ingestKey ingestedAt).metaRows, mergeAnnotationRows
        (initialMetaAnnotationRows (parts.args ingestKey ingestedAt).metaRows)
        parts.annotationRows⟩ := by
  have heffective : Ledger.effectiveId (parts.args ingestKey ingestedAt).asrtId
      (parts.args ingestKey ingestedAt).claim.asrtId
      (parts.args ingestKey ingestedAt).newId = asrtId := effectiveId_self asrtId
  have hterms : normalizeTerms w.restTerms = .ok () :=
    each_ok_iff.mpr fun t ht => require_of_true (by simpa using (hw.terms t ht).1)
  have hargs : (Indexes.argRows asrtId parts.rows).map (fun row => { row with asrtId := asrtId }) =
      Indexes.argRows asrtId parts.rows := by
    unfold Indexes.argRows
    rw [List.map_map]
    rfl
  have hannotations : parts.annotationRows.map (fun row => { row with asrtId := asrtId }) =
      parts.annotationRows := by
    have hid : parts.annotationRows.map (fun row => { row with asrtId := asrtId }) =
        parts.annotationRows.map id := by
      apply List.map_congr_left
      intro a ha
      have hmem := annotationRows_of_meta hw.keys parts.users_ok parts.annotationRows_ok a ha
      obtain ⟨r, hr, hra⟩ := List.mem_filterMap.mp hmem
      obtain ⟨p, _, hrow⟩ := (userMetaRows_spec hw.keys parts.users_ok).1 r hr
      unfold initialMetaAnnotationRow at hra
      obtain ⟨⟨category, origin⟩, _, rfl⟩ := Option.map_eq_some_iff.mp hra
      simp [hrow.asrtId]
    rw [hid, List.map_id]
  have hvalid : validateAnnotationRows (mergeAnnotationRows
      (initialMetaAnnotationRows (parts.args ingestKey ingestedAt).metaRows)
      parts.annotationRows) = .ok () :=
    each_ok_iff.mpr fun a ha => validate_initialMetaAnnotation
      (parts.metaRows_valid hw hid ingestedAt) (parts.merged_of_meta hw ingestedAt a ha)
  unfold Ledger.buildAssertion
  simp only [heffective]
  simp only [args, FieldWrite.claim] at hvalid ⊢
  rw [hterms, ok_bind, parts.rows_ok, ok_bind, hannotations, hvalid]
  simp only [hargs, decide_true, require, if_true, ok_bind]

end Parts

/-- The claim of a prepared write can be stored. -/
theorem Prepared.storable {w : FieldWrite} {ingestKey : String} (hw : Prepared w m ingestKey)
    (hid : asrtId ≠ "") : (w.claim asrtId).Storable where
  identity := by
    unfold validateClaimIdentity
    simp [FieldWrite.claim, hid, hw.predId, hw.eRef, require, ok_bind]
  terms := each_ok_iff.mpr fun t ht => require_of_true (by simpa using (hw.terms t ht).1)
  encoded := exists_encodeTerms fun t ht => (hw.terms t ht).2

/-! ## Metadata that can be stored -/

/-- The ledger can encode every value of the metadata: its floats are finite, and Python writes its
integers in decimal. -/
def MetaDict.Encodable (m : MetaDict) : Prop :=
  ∀ p ∈ m.entries, dumpsError? (sortKeys (toJsonable p.2)) = none

instance (m : MetaDict) : Decidable m.Encodable := inferInstanceAs (Decidable (∀ p ∈ m.entries, _))

theorem exists_ok_ite_iff {α : Type} {c : Bool} {a : α} {e : StoreErr} :
    (∃ s, (if c = true then Except.ok a else Except.error e) = .ok s) ↔ c = true := by
  cases c <;> simp

theorem exists_dumpsSorted_iff {value : Datum} :
    (∃ s, (dumpsSorted value).map StoredMeta.json = .ok s) ↔
      dumpsError? (sortKeys (toJsonable value)) = none := by
  simp only [dumpsSorted]
  cases dumpsError? (sortKeys (toJsonable value)) <;> simp [Except.map]

/-- A value of the kind that was inferred for it can be stored if `json.dumps` takes it. -/
theorem encode_iff {key kind : String} {value : Datum} (h : inferMetaKind key value = .ok kind) :
    (∃ s, encodeMetaValue kind value = .ok s) ↔
      dumpsError? (sortKeys (toJsonable value)) = none := by
  unfold inferMetaKind at h
  split at h
  next k hk =>
    obtain ⟨_, hvalid, rfl⟩ := map_ok_iff.mp h
    unfold validateMetaValueForKind at hvalid
    split at hvalid
    all_goals try cases hvalid
    all_goals
      simp [encodeMetaValue, exists_ok_ite_iff, exists_dumpsSorted_iff, toJsonable,
        scalarToJsonable, sortKeys, dumpsError?, JsonScalar.dumpsError?]
  next =>
    unfold inferMetaKindByValue at h
    (repeat' split at h) <;> cases h
    all_goals
      simp [encodeMetaValue, exists_ok_ite_iff, toJsonable, scalarToJsonable, sortKeys,
        dumpsError?, JsonScalar.dumpsError?]

/-- The dry run of a write says that its arguments can be built, whatever its id. -/
theorem parts_of_preflight {sha256 : List UInt8 → List UInt8} {w : FieldWrite} {ingestKey : String}
    (hw : w.prepare sha256 = .ok (m, ingestKey)) (h : w.preflight sha256 = .ok ())
    (asrtId : String) (ingestedAt : Int64) :
    ∃ parts : Parts w m asrtId,
      w.assertionArgs m ingestKey asrtId ingestedAt = .ok (parts.args ingestKey ingestedAt) := by
  have hprepared := prepared_of_ok hw
  unfold FieldWrite.preflight at h
  rw [hw, ok_bind] at h
  obtain ⟨metaRows, hmeta, _⟩ := bind_ok_iff.mp h
  obtain ⟨users₀, husers₀, _⟩ := metaRowsForClaim_eq hmeta
  obtain ⟨rows, hrows⟩ := exists_claimArgsFrom (fun t ht => (hprepared.terms t ht).2) 0
  obtain ⟨annotationRows, hannotations⟩ := exists_annotationRows asrtId m
  obtain ⟨users, husers⟩ : ∃ users, userMetaRows asrtId m = .ok users := by
    apply exists_mapOk
    intro p hp
    -- the kind of an entry does not depend on the id
    obtain ⟨r, _, hr⟩ := image_of_mapOk husers₀ hp
    obtain ⟨kind, hkind, _⟩ := map_ok_iff.mp hr
    refine ⟨⟨asrtId, .plain p.1, kind, p.2⟩, ?_⟩
    rw [hkind]
    rfl
  refine ⟨⟨rows, users, annotationRows, hrows, husers, hannotations⟩, ?_⟩
  have hrows' : claimArgsFromRestTerms w.restTerms = .ok rows := hrows
  unfold FieldWrite.assertionArgs metaRowsForClaim
  rw [hrows', ok_bind, husers, hannotations]
  rfl

namespace Parts

variable {w : FieldWrite} {ingestKey : String} (parts : Parts w m asrtId)

/-- The metadata of a prepared write can be stored exactly if what the caller gave can be: the time
comes from a clock of 64 bits. -/
theorem encodable_iff (hw : Prepared w m ingestKey) (ingestedAt : Int64) :
    Ledger.Encodable (parts.args ingestKey ingestedAt).metaRows ↔ m.Encodable := by
  obtain ⟨hrows, hentries, _⟩ := userMetaRows_spec hw.keys parts.users_ok
  constructor
  · intro h p hp
    obtain ⟨r, hr, hrow⟩ := hentries p hp
    have hencode := h r (List.mem_append_right _ hr)
    rw [hrow.value] at hencode
    exact (encode_iff hrow.kind).mp hencode
  · intro h r hr
    rcases List.mem_append.mp hr with hr | hr
    · have hown : r = ⟨asrtId, .plain "ingested_at", "time", .leaf (.int ingestedAt.toInt)⟩ ∨
          r = ⟨asrtId, .plain "ingest_key", "str", .leaf (.str ingestKey)⟩ := by
        simpa [ownRows] using hr
      rcases hown with rfl | rfl
      · exact ⟨.time ingestedAt.toInt, encodeMetaValue_clock ingestedAt⟩
      · exact ⟨.str ingestKey, rfl⟩
    · obtain ⟨p, hp, hrow⟩ := hrows r hr
      rw [hrow.value]
      exact (encode_iff hrow.kind).mpr (h p hp)

end Parts

end FactGraph.Evidence
