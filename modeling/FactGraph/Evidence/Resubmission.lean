import FactGraph.Evidence.IngestKeys

/-!
# Submitting a write again

A write whose key has an active claim is answered with that claim. Once the claim is retracted, the
same write appends a new one, unless its metadata holds a float that is not finite or an integer of
too many digits: the ledger encodes metadata only when it writes it, so such a write is answered but
never appended.
-/

namespace FactGraph.Evidence

open Protocol Store Check Indexes

section

variable {sha256 : List UInt8 → List UInt8} {l : Ledger} {w : FieldWrite} {m : MetaDict}
  {key : String}

theorem setField_eq {asrtId : String} {ingestedAt : Int64} (hw : w.prepare sha256 = .ok (m, key))
    {parts : Parts w m asrtId}
    (hargs : w.assertionArgs m key asrtId ingestedAt = .ok (parts.args key ingestedAt)) :
    setField sha256 l w asrtId ingestedAt = ((l.appendAssertion (parts.args key ingestedAt)).1,
      (l.appendAssertion (parts.args key ingestedAt)).2.map (·.asrtId)) := by
  unfold setField
  simp only [hw, hargs]

/-- A write whose key is found is answered with the id that has it. -/
theorem setField_of_find (hw : w.prepare sha256 = .ok (m, key))
    (hpreflight : w.preflight sha256 = .ok ()) {a : String} (ha : l.findIngestKey key = some a)
    (asrtId : String) (ingestedAt : Int64) : setField sha256 l w asrtId ingestedAt = (l, .ok a) := by
  obtain ⟨parts, hargs⟩ := parts_of_preflight hw hpreflight asrtId ingestedAt
  have hanswer : l.idempotentAnswer (parts.args key ingestedAt).idempotency = .ok (some a) := by
    rw [show (parts.args key ingestedAt).idempotency = some ⟨key, .skip⟩ from rfl,
      idempotentAnswer_skip, ha]
  rw [setField_eq hw hargs]
  unfold Ledger.appendAssertion
  rw [parts.check_ok (prepared_of_ok hw) ingestedAt]
  simp only [hanswer]
  rfl

/-- A write whose key is not found is accepted under a fresh id, if its metadata can be
encoded. -/
theorem setField_appends (hw : w.prepare sha256 = .ok (m, key))
    (hpreflight : w.preflight sha256 = .ok ()) (hfree : l.findIngestKey key = none)
    {asrtId : String} (hid : asrtId ≠ "") (hfresh : asrtId ∉ l.writtenIds) (hencodable : m.Encodable)
    (ingestedAt : Int64) : ∃ l', setField sha256 l w asrtId ingestedAt = (l', .ok asrtId) := by
  have hprepared := prepared_of_ok hw
  obtain ⟨parts, hargs⟩ := parts_of_preflight hw hpreflight asrtId ingestedAt
  have hanswer : l.idempotentAnswer (parts.args key ingestedAt).idempotency = .ok none := by
    rw [show (parts.args key ingestedAt).idempotency = some ⟨key, .skip⟩ from rfl,
      idempotentAnswer_skip, hfree]
  have hencode := (parts.encodable_iff hprepared ingestedAt).mpr hencodable
  obtain ⟨l', hl'⟩ := Ledger.appendAssertion_of_fresh (parts.check_ok hprepared ingestedAt) hanswer
    (parts.build_ok hprepared hid ingestedAt)
    ((Ledger.insertAssertion_of_fresh (hprepared.storable hid) hfresh
      (fun r hr _ => (Tables.txSeq_lt_nextDirectTxSeq hr).ne)
      (nodup_keys hprepared.keys parts.users_ok) hencode
      (compatibility_nil hencode (parts.merged_of_meta hprepared ingestedAt))).imp
      fun _ h => h.1)
  refine ⟨l', ?_⟩
  rw [setField_eq hw hargs, hl']
  rfl

/-- **A key in use.** The write is answered with the claim that has it. -/
theorem setField_of_active (hl : Keyed l) (hw : w.prepare sha256 = .ok (m, key))
    (hpreflight : w.preflight sha256 = .ok ()) {a : String} (ha : ActiveWith l key a)
    (asrtId : String) (ingestedAt : Int64) : setField sha256 l w asrtId ingestedAt = (l, .ok a) :=
  setField_of_find hw hpreflight (hl.findIngestKey_eq_some_iff.mpr ha) asrtId ingestedAt

/-- The ids of claims are in the table. -/
theorem mem_writtenIds (hl : l.Sound) {c : Claim} (hc : c ∈ l.indexes.claims) :
    c.asrtId ∈ l.writtenIds := by
  have hsig : c.signature ∈ (l.tables.claims.rows.filter ClaimRow.isUser).map ClaimRow.signature :=
    hl.claims.subset (List.mem_map_of_mem hc)
  obtain ⟨r, hr, hrc⟩ := List.mem_map.mp hsig
  have hid : r.asrtId = c.asrtId := congrArg Prod.fst hrc
  rw [← hid]
  exact List.mem_map_of_mem (List.mem_of_mem_filter hr)

/-- **A key that is free**, metadata that can be encoded: the write appends an active claim. -/
theorem setField_of_free (hl : Keyed l) (hw : w.prepare sha256 = .ok (m, key))
    (hpreflight : w.preflight sha256 = .ok ()) (hfree : ∀ a, ¬ActiveWith l key a)
    {asrtId : String} (hid : asrtId ≠ "") (hfresh : asrtId ∉ l.writtenIds) (hencodable : m.Encodable)
    (ingestedAt : Int64) :
    ∃ l', setField sha256 l w asrtId ingestedAt = (l', .ok asrtId) ∧
      l'.indexes.claims = l.indexes.claims ++ [w.claim asrtId] ∧ ActiveWith l' key asrtId := by
  obtain ⟨parts, hargs⟩ := parts_of_preflight hw hpreflight asrtId ingestedAt
  obtain ⟨l', hl'⟩ := setField_appends hw hpreflight (hl.findIngestKey_eq_none_iff.mpr hfree) hid
    hfresh hencodable ingestedAt
  have houtcome := fieldOutcome parts hl.eager (prepared_of_ok hw) ingestedAt
  have hstep := l.step_appendAssertion (parts.args key ingestedAt)
  refine ⟨l', hl', ?_⟩
  rw [setField_eq hw hargs] at hl'
  generalize l.appendAssertion (parts.args key ingestedAt) = r at houtcome hstep hl'
  cases houtcome with
  | refused e => cases hl'
  | answered h => exact absurd (hl.findIngestKey_eq_some_iff.mp h) (hfree _)
  | written _ _ _ claims keys revokes =>
    cases hl'
    refine ⟨claims, ⟨⟨w.claim asrtId, ?_, rfl⟩, ?_, ?_⟩⟩
    · simp [claims]
    · simp [keys]
    · apply (hasActiveRevocation_false_iff (hl.sound.step hstep)).mpr
      intro r hr hrevoked
      -- only ids in use have been revoked
      rw [revokes] at hr
      obtain ⟨c, hc, hcid⟩ := hl.sound.targeted r hr
      exact hfresh (hrevoked ▸ hcid ▸ mem_writtenIds hl.sound hc)

/-- A key that is free, metadata that cannot be encoded: the write is refused. -/
theorem setField_of_not_encodable (hl : Keyed l) (hw : w.prepare sha256 = .ok (m, key))
    (hpreflight : w.preflight sha256 = .ok ()) (hfree : ∀ a, ¬ActiveWith l key a)
    (hencodable : ¬m.Encodable) (asrtId : String) (ingestedAt : Int64) :
    ∃ e, setField sha256 l w asrtId ingestedAt = (l, .error e) := by
  obtain ⟨parts, hargs⟩ := parts_of_preflight hw hpreflight asrtId ingestedAt
  have houtcome := fieldOutcome parts hl.eager (prepared_of_ok hw) ingestedAt
  rw [setField_eq hw hargs]
  generalize l.appendAssertion (parts.args key ingestedAt) = r at houtcome ⊢
  cases houtcome with
  | refused e => exact ⟨e, rfl⟩
  | answered h => exact absurd (hl.findIngestKey_eq_some_iff.mp h) (hfree _)
  | written encodable => exact absurd encodable hencodable

/-- **A retraction frees the key** of its claim. -/
theorem free_of_retract (hl : Keyed l) {a : String} (ha : ActiveWith l key a)
    {m : Option MetaDict} {revokerAsrtId : String} {ingestedAt : Int64} {l' : Ledger} {r : String}
    (h : retractByAsrt l a m revokerAsrtId ingestedAt = (l', .ok r)) :
    ∀ b, ¬ActiveWith l' key b := by
  have hstep := retractByAsrt_step hl.eager a m revokerAsrtId ingestedAt
  have houtcome := retractOutcome hl.eager a m revokerAsrtId ingestedAt
  rw [h] at houtcome hstep
  have hl' : Keyed l' := hl.step hstep
  intro b hb
  cases houtcome with
  | retracted hrevoker =>
    -- the claim would have been revoked before
    unfold Ledger.findRevoker at hrevoker
    rw [hl.sound.coherent.firstRevoker] at hrevoker
    obtain ⟨s, hs, _⟩ := Option.map_eq_some_iff.mp hrevoker
    refine (hasActiveRevocation_false_iff hl.sound).mp ha.active s (List.mem_of_find?_eq_some hs) ?_
    simpa using List.find?_some hs
  | written _ _ claims keys revokes =>
    have hactive := (hasActiveRevocation_false_iff hl'.sound).mp hb.active
    have hold : ActiveWith l key b := by
      refine ⟨claims ▸ hb.known, keys ▸ hb.key, ?_⟩
      apply (hasActiveRevocation_false_iff hl.sound).mpr
      intro s hs
      exact hactive s (revokes ▸ List.mem_append_left _ hs)
    obtain rfl := hl.unique key a b ha hold
    exact hactive ⟨revokerAsrtId, a⟩ (by simp [revokes]) rfl

end

/-- **An ingest key names at most one active claim, and a write submitted again makes one.** On every
ledger that a run of the four operations leads to: a claim has exactly one ingest key, no two active
claims share one, and for every write that `set_field` prepares under a key
- while a claim is active under the key, the write returns its id and leaves the ledger alone;
- a retraction of that claim leaves no claim active under the key;
- while no claim is, the write appends an active claim under the fresh id it is given if the
  ledger can encode every value of its metadata, and is refused otherwise. -/
theorem ingestKey_of_run (sha256 : List UInt8 → List UInt8) {l : Ledger}
    (hl : Reachable sha256 l) :
    (∀ c ∈ l.indexes.claims, ∃ key, (c.asrtId, key) ∈ ingestKeys l ∧
      ∀ other, (c.asrtId, other) ∈ ingestKeys l → other = key) ∧
    (∀ key a b, ActiveWith l key a → ActiveWith l key b → a = b) ∧
    ∀ (w : FieldWrite) (m : MetaDict) (key : String), w.prepare sha256 = .ok (m, key) →
      w.preflight sha256 = .ok () →
      (∀ a, ActiveWith l key a → ∀ asrtId ingestedAt,
        setField sha256 l w asrtId ingestedAt = (l, .ok a)) ∧
      (∀ a, ActiveWith l key a → ∀ m revokerAsrtId ingestedAt l' r,
        retractByAsrt l a m revokerAsrtId ingestedAt = (l', .ok r) → ∀ b, ¬ActiveWith l' key b) ∧
      ((∀ a, ¬ActiveWith l key a) → ∀ asrtId ingestedAt, asrtId ≠ "" → asrtId ∉ l.writtenIds →
        (m.Encodable → ∃ l', setField sha256 l w asrtId ingestedAt = (l', .ok asrtId) ∧
          l'.indexes.claims = l.indexes.claims ++ [w.claim asrtId] ∧ ActiveWith l' key asrtId) ∧
        (¬m.Encodable → ∃ e, setField sha256 l w asrtId ingestedAt = (l, .error e))) := by
  have hkeyed : Keyed l := hl.keyed
  refine ⟨fun c hc => hkeyed.exists_unique_key hc, hkeyed.unique, ?_⟩
  intro w m key hw hpreflight
  refine ⟨?_, ?_, ?_⟩
  · intro a ha asrtId ingestedAt
    exact setField_of_active hkeyed hw hpreflight ha asrtId ingestedAt
  · intro a ha m revokerAsrtId ingestedAt l' r h
    exact free_of_retract hkeyed ha h
  · intro hfree asrtId ingestedAt hid hfresh
    exact ⟨fun hencodable => setField_of_free hkeyed hw hpreflight hfree hid hfresh hencodable ingestedAt,
      fun hencodable => setField_of_not_encodable hkeyed hw hpreflight hfree hencodable asrtId ingestedAt⟩

/-! ## A run -/

/-- A digest that keeps four bytes; the run below has one key only. -/
def plainDigest : List UInt8 → List UInt8 := List.take 4

def ageWrite : FieldWrite where
  predId := "person:age"
  eRef := "idref_v1:alice"
  restTerms := [("int", .leaf (.int 30))]

/-- The same write with a score that is infinite. -/
def scoredWrite : FieldWrite :=
  { ageWrite with metaData := some ⟨[("score", .leaf (.float ⟨0x7ff0000000000000⟩))], by decide⟩ }

def agedLedger : Ledger := FieldOp.run plainDigest Ledger.empty (.setField ageWrite "a1" 1)

def retractedLedger : Ledger :=
  FieldOp.run plainDigest agedLedger (.retractByAsrt "a1" none "r1" 3)

/-- The write of the run is answered while its claim is active, and appended again once it is not. -/
theorem ingestKey_of_agedLedger :
    setField plainDigest agedLedger ageWrite "a2" 2 = (agedLedger, .ok "a1") ∧
      ∃ l', setField plainDigest retractedLedger ageWrite "a3" 4 = (l', .ok "a3") ∧
        ActiveWith l' "sha256:66616374" "a3" := by
  have haged : Reachable plainDigest agedLedger := ⟨[], [.setField ageWrite "a1" 1], by simp, rfl⟩
  have hretracted : Reachable plainDigest retractedLedger :=
    ⟨[], [.setField ageWrite "a1" 1, .retractByAsrt "a1" none "r1" 3], by simp, rfl⟩
  have hprepare : ageWrite.prepare plainDigest = .ok (.empty, "sha256:66616374") := by rfl
  have hpreflight : ageWrite.preflight plainDigest = .ok () := by rfl
  have hactive : ActiveWith agedLedger "sha256:66616374" "a1" :=
    ⟨by decide +kernel, by decide +kernel, by rfl⟩
  obtain ⟨hanswered, hfrees, _⟩ :=
    (ingestKey_of_run plainDigest haged).2.2 ageWrite _ _ hprepare hpreflight
  obtain ⟨_, _, happends⟩ :=
    (ingestKey_of_run plainDigest hretracted).2.2 ageWrite _ _ hprepare hpreflight
  have hok : (retractByAsrt agedLedger "a1" none "r1" 3).2 = .ok "r1" := by rfl
  have hfree := hfrees "a1" hactive none "r1" 3 retractedLedger "r1" (Prod.ext rfl hok)
  obtain ⟨l', hset, _, hnew⟩ :=
    (happends hfree "a3" 4 (by decide) (by decide +kernel)).1 (by decide)
  exact ⟨hanswered "a1" hactive "a2" 2, l', hset, hnew⟩

/-- A write with a score that is infinite is answered while the key is in use. Once the claim is
retracted it is refused, and nothing is appended. -/
theorem scoredWrite_refused :
    (setField plainDigest agedLedger scoredWrite "a2" 2).2 = .ok "a1" ∧
      (retractByAsrt agedLedger "a1" none "r1" 3).2 = .ok "r1" ∧
      (setField plainDigest retractedLedger scoredWrite "a3" 4).2 =
        .error (.valueError "meta float value must be finite") ∧
      (setField plainDigest retractedLedger scoredWrite "a3" 4).1.indexes.claims =
        retractedLedger.indexes.claims := by
  refine ⟨?_, ?_, ?_, ?_⟩
  all_goals rfl

end FactGraph.Evidence
