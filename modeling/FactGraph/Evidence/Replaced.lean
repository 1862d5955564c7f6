import FactGraph.Evidence.Material
import FactGraph.Evidence.Resubmission

/-!
# Replacing a value

`replace_field` is two writes. The first, a retraction, stores the metadata of the call; the second
was tried out before it, up to its metadata being storable. So once the retraction has gone through
nothing is left that could refuse the second write (`setField_accepts`), and a call that raises has
written nothing.
-/

namespace FactGraph.Evidence

open Protocol Store Check Indexes

variable {sha256 : List UInt8 → List UInt8} {l l' : Ledger}

/-! ## The retraction -/

/-- A retraction of a claim that was not retracted stores its revoker and its metadata. -/
theorem retract_stored {revokedAsrtId revokerAsrtId : String} {m : Option MetaDict}
    {ingestedAt : Int64} {r : String} (hnone : l.findRevoker revokedAsrtId = none)
    (h : retractByAsrt l revokedAsrtId m revokerAsrtId ingestedAt = (l', .ok r)) :
    r = revokerAsrtId ∧ l'.writtenIds = l.writtenIds ++ [revokerAsrtId] ∧
      ∃ rows, metaRowsForRetraction revokedAsrtId m revokerAsrtId ingestedAt = .ok rows ∧
        Ledger.Encodable rows := by
  unfold retractByAsrt at h
  rcases hcheck : checkRetraction l revokedAsrtId with e | _
  · simp [hcheck] at h
  simp only [hcheck, hnone] at h
  rcases hrows : metaRowsForRetraction revokedAsrtId m revokerAsrtId ingestedAt with e | rows
  · simp [hrows] at h
  simp only [hrows] at h
  let args : Ledger.RevocationArgs :=
    { revokes := ⟨revokerAsrtId, revokedAsrtId⟩, metaRows := rows
      revokerAsrtId := some revokerAsrtId }
  have houtcome := l.appendRevocation_outcome args
  have h : ((l.appendRevocation args).1,
      (l.appendRevocation args).2.map fun _ => revokerAsrtId) = (l', .ok r) := h
  generalize l.appendRevocation args = res at houtcome h
  cases houtcome with
  | refused e => cases h
  | answered hanswer => cases hanswer
  | @written l'' rows' id hcheck' hid hsession =>
    cases h
    have hself : id = revokerAsrtId := hid.trans (effectiveId_self revokerAsrtId)
    subst hself
    have hrows' := retraction_rows hid hcheck'
    have hids : ∀ r ∈ rows', r.asrtId = id := by
      rw [hid]
      exact Ledger.checkRevocation_ids hcheck'
    rcases Ledger.stored_of_session hids hsession with ⟨hwritten, hencode⟩
    refine ⟨rfl, hwritten, rows, rfl, ?_⟩
    intro r hr
    exact hencode { r with asrtId := id } (hrows' ▸ List.mem_map_of_mem hr)

/-- The metadata of a retraction that went through can be encoded. -/
theorem encodable_of_retraction {m : Option MetaDict} {m' : MetaDict} (hm : normalizeMeta m = .ok m')
    {revokedAsrtId revokerAsrtId : String} {ingestedAt : Int64} {rows : List MetaRow}
    (h : metaRowsForRetraction revokedAsrtId m revokerAsrtId ingestedAt = .ok rows)
    (hencode : Ledger.Encodable rows) : m'.Encodable := by
  unfold metaRowsForRetraction at h
  rw [hm, ok_bind] at h
  rcases bind_ok_iff.mp h with ⟨users, husers, h⟩
  cases h
  intro p hp
  rcases (userMetaRows_spec (normalizeMeta_keys hm) husers).2.1 p hp with ⟨r, hr, hrow⟩
  have hstored := hencode r (List.mem_cons_of_mem _ (List.mem_cons_of_mem _ hr))
  rw [hrow.value] at hstored
  exact (encode_iff hrow.kind).mp hstored

/-! ## The two writes -/

variable {w : FieldWrite} {m : MetaDict} {key asrtId : String}

/-- **A write that was tried out is accepted** under a fresh id, if its metadata can be
encoded. -/
theorem setField_accepts (hw : w.prepare sha256 = .ok (m, key))
    (hpreflight : w.preflight sha256 = .ok ()) (hid : asrtId ≠ "") (hfresh : asrtId ∉ l.writtenIds)
    (hencodable : m.Encodable) (ingestedAt : Int64) :
    ∃ l' id, setField sha256 l w asrtId ingestedAt = (l', .ok id) := by
  cases hfind : l.findIngestKey key with
  | some a => exact ⟨l, a, setField_of_find hw hpreflight hfind asrtId ingestedAt⟩
  | none =>
    rcases setField_appends hw hpreflight hfind hid hfresh hencodable ingestedAt with ⟨l', h⟩
    exact ⟨l', asrtId, h⟩

/-- The parts of a call of `replace_field` that passed its checks. -/
theorem prepare_of_preflight (h : w.preflight sha256 = .ok ()) :
    ∃ m key, w.prepare sha256 = .ok (m, key) := by
  unfold FieldWrite.preflight at h
  rcases bind_ok_iff.mp h with ⟨⟨m, key⟩, hw, _⟩
  exact ⟨m, key, hw⟩

theorem normalizeMeta_of_prepare (hw : w.prepare sha256 = .ok (m, key)) :
    normalizeMeta w.metaData = .ok m := by
  unfold FieldWrite.prepare at hw
  rcases bind_unit_ok_iff.mp hw with ⟨_, hw⟩
  rcases bind_ok_iff.mp hw with ⟨m', hm, hw⟩
  rcases bind_ok_iff.mp hw with ⟨key', _, hw⟩
  cases hw
  exact hm

/-- The claim that `_find_active_matching_claim` finds. -/
structure Matching (l : Ledger) (w : FieldWrite) (oldRestTerms : List Term) (c : Claim) : Prop where
  known : c ∈ l.indexes.claims
  predId : c.predId = w.predId
  eRef : c.eRef = w.eRef
  terms : Term.eqvList c.restTerms oldRestTerms = true
  active : l.hasActiveRevocation c.asrtId = false

theorem matching_of_find (hl : l.Sound) {oldRestTerms : List Term} {old : String}
    (h : findActiveMatchingClaim l w.predId w.eRef oldRestTerms = some old) :
    ∃ c, Matching l w oldRestTerms c ∧ c.asrtId = old := by
  unfold findActiveMatchingClaim at h
  rcases Option.map_eq_some_iff.mp h with ⟨c, hc, hid⟩
  have hmatch := List.find?_some hc
  rw [Bool.and_eq_true, Bool.not_eq_true'] at hmatch
  have hfound : c ∈ Buckets.get l.indexes.claimsByPredERef (w.predId, w.eRef) :=
    List.mem_of_find?_eq_some hc
  rw [hl.coherent.byPredERef, List.map_id] at hfound
  rcases List.mem_filter.mp hfound with ⟨hknown, hkey⟩
  have hkey := Prod.ext_iff.mp (of_decide_eq_true hkey)
  exact ⟨c, ⟨hknown, hkey.1, hkey.2, hmatch.1, hmatch.2⟩, hid⟩

/-- An active claim has no revoker. -/
theorem findRevoker_of_active (hl : l.Sound) {a : String} (h : l.hasActiveRevocation a = false) :
    l.findRevoker a = none := by
  unfold Ledger.findRevoker
  rw [hl.coherent.firstRevoker, Option.map_eq_none_iff, List.find?_eq_none]
  intro r hr
  have hne := (hasActiveRevocation_false_iff hl).mp h r hr
  simpa using hne

/-- **A call of `replace_field` that raises has written nothing**; one that returns has retracted the
claim it found and then made its write. -/
inductive ReplaceOutcome (sha256 : List UInt8 → List UInt8) (l : Ledger) (w : FieldWrite)
    (oldRestTerms : List Term) (revokerAsrtId asrtId : String) (ingestedAt : Int64) :
    Ledger × Except StoreErr (String × String) → Prop
  | refused (e : StoreErr) :
      ReplaceOutcome sha256 l w oldRestTerms revokerAsrtId asrtId ingestedAt (l, .error e)
  | replaced {c : Claim} {l₁ l₂ : Ledger} {id key : String} {m : MetaDict}
      (found : Matching l w oldRestTerms c) (step : l.Step l₁)
      (lazyMetaKeys : l₁.lazyMetaKeys = l.lazyMetaKeys)
      (claims : l₁.indexes.claims = l.indexes.claims) (keys : ingestKeys l₁ = ingestKeys l)
      (revokes : l₁.indexes.revokesData = l.indexes.revokesData ++ [⟨revokerAsrtId, c.asrtId⟩])
      (written : l₁.writtenIds = l.writtenIds ++ [revokerAsrtId])
      (prepared : w.prepare sha256 = .ok (m, key))
      (set : setField sha256 l₁ w asrtId ingestedAt = (l₂, .ok id)) :
      ReplaceOutcome sha256 l w oldRestTerms revokerAsrtId asrtId ingestedAt
        (l₂, .ok (revokerAsrtId, id))

theorem replaceOutcome (hl : l.Sound) (heager : l.isLazy "ingest_key" = false) (w : FieldWrite)
    (oldRestTerms : List Term) {revokerAsrtId asrtId : String} (hid : asrtId ≠ "")
    (hfresh : asrtId ∉ l.writtenIds) (hne : asrtId ≠ revokerAsrtId) (revokedAt ingestedAt : Int64) :
    ReplaceOutcome sha256 l w oldRestTerms revokerAsrtId asrtId ingestedAt
      (replaceField sha256 l w oldRestTerms revokerAsrtId revokedAt asrtId ingestedAt) := by
  unfold replaceField
  rcases validateWriteInputs w.predId w.eRef oldRestTerms with e | _
  · exact .refused e
  rcases hpreflight : w.preflight sha256 with e | _
  · exact .refused e
  rcases hfind : findActiveMatchingClaim l w.predId w.eRef oldRestTerms with _ | old
  · exact .refused _
  rcases matching_of_find hl hfind with ⟨c, hc, rfl⟩
  have houtcome := retractOutcome heager c.asrtId w.metaData revokerAsrtId revokedAt
  have hstored : ∀ l₁ r, retractByAsrt l c.asrtId w.metaData revokerAsrtId revokedAt = (l₁, .ok r) →
      _ := fun l₁ r => retract_stored (findRevoker_of_active hl hc.active)
  dsimp only
  generalize retractByAsrt l c.asrtId w.metaData revokerAsrtId revokedAt = res at houtcome hstored ⊢
  cases houtcome with
  | refused e => exact .refused e
  | retracted h =>
    rw [findRevoker_of_active hl hc.active] at h
    cases h
  | @written l₁ step lazyMetaKeys claims keys revokes =>
    rcases prepare_of_preflight hpreflight with ⟨m, key, hw⟩
    rcases hstored l₁ revokerAsrtId rfl with ⟨_, hwritten, rows, hrows, hencode⟩
    have hencodable := encodable_of_retraction (normalizeMeta_of_prepare hw) hrows hencode
    have hfresh₁ : asrtId ∉ l₁.writtenIds := by
      rw [hwritten, List.mem_append, List.mem_singleton]
      exact fun h => h.elim hfresh hne
    rcases setField_accepts hw hpreflight hid hfresh₁ hencodable ingestedAt with ⟨l₂, id, hset⟩
    simp only [hset]
    exact .replaced hc step lazyMetaKeys claims keys revokes hwritten hw hset

/-! ## What a call leaves behind -/

theorem isLazy_congr {l l₁ : Ledger} (h : l₁.lazyMetaKeys = l.lazyMetaKeys) (key : String) :
    l₁.isLazy key = l.isLazy key := by
  unfold Ledger.isLazy
  rw [h]

/-- Only claims, whose ids are in use, are revoked. -/
theorem active_of_fresh (hl : l.Sound) {a : String} (h : a ∉ l.writtenIds) :
    l.hasActiveRevocation a = false := by
  apply (hasActiveRevocation_false_iff hl).mpr
  intro r hr hrevoked
  rcases hl.targeted r hr with ⟨c, hc, hcid⟩
  exact h (hrevoked ▸ hcid ▸ mem_writtenIds hl hc)

/-- A write that returned: it was answered by the id that has its key, or appended its claim. -/
theorem setField_ok (heager : l.isLazy "ingest_key" = false) (hw : w.prepare sha256 = .ok (m, key))
    {ingestedAt : Int64} {id : String} (h : setField sha256 l w asrtId ingestedAt = (l', .ok id)) :
    (l' = l ∧ l.findIngestKey key = some id) ∨
      (l.Step l' ∧ id = asrtId ∧ l'.indexes.claims = l.indexes.claims ++ [w.claim asrtId] ∧
        l.findIngestKey key = none ∧ l'.indexes.revokesData = l.indexes.revokesData) := by
  unfold setField at h
  simp only [hw] at h
  rcases hargs : w.assertionArgs m key asrtId ingestedAt with e | args
  · simp [hargs] at h
  simp only [hargs] at h
  rcases parts_of_ok hargs with ⟨parts, rfl⟩
  have houtcome := fieldOutcome parts heager (prepared_of_ok hw) ingestedAt
  have hstep := l.step_appendAssertion (parts.args key ingestedAt)
  generalize l.appendAssertion (parts.args key ingestedAt) = r at houtcome hstep h
  cases houtcome with
  | refused e => cases h
  | answered hfind =>
    cases h
    exact .inl ⟨rfl, hfind⟩
  | written encodable free lazyMetaKeys claims keys revokes =>
    cases h
    exact .inr ⟨hstep, rfl, claims, free, revokes⟩

/-- The claim of a prepared write says what the write says. -/
theorem saidBy_self (hw : w.prepare sha256 = .ok (m, key)) (asrtId : String) :
    w.SaidBy (w.claim asrtId) := by
  unfold FieldWrite.prepare at hw
  rcases bind_unit_ok_iff.mp hw with ⟨hinputs, _⟩
  rcases validateWriteInputs_spec hinputs with ⟨_, _, _, raw, hraw⟩
  exact ⟨rfl, rfl, canonicalBytesTupV1_normalised hraw hraw⟩

/-- **`replace_field` is atomic.** On every ledger that keeps ingest keys in memory, given a fresh
id: a call that raises leaves the ledger as it was; a call that returns has revoked the active claim
it found and no other, and has added at most the claim of its write. Where every ingest key was
computed from the claim that has it, as on every ledger the write protocol wrote, the id returned is
that of an active claim that says what the write says. -/
theorem replaceField_atomic (hsha : Function.Injective sha256) (hl : l.Reachable)
    (heager : l.isLazy "ingest_key" = false) (w : FieldWrite) (oldRestTerms : List Term)
    {revokerAsrtId asrtId : String} (hid : asrtId ≠ "") (hfresh : asrtId ∉ l.writtenIds)
    (hne : asrtId ≠ revokerAsrtId) (revokedAt ingestedAt : Int64) :
    (∀ l' e, replaceField sha256 l w oldRestTerms revokerAsrtId revokedAt asrtId ingestedAt =
      (l', .error e) → l' = l) ∧
    (∀ l' revoker id, replaceField sha256 l w oldRestTerms revokerAsrtId revokedAt asrtId ingestedAt =
        (l', .ok (revoker, id)) →
      ∃ c, Matching l w oldRestTerms c ∧
        l'.indexes.revokesData = l.indexes.revokesData ++ [⟨revoker, c.asrtId⟩] ∧
        (∀ a, l'.hasActiveRevocation a = true ↔ a = c.asrtId ∨ l.hasActiveRevocation a = true) ∧
        (l'.indexes.claims = l.indexes.claims ∨
          l'.indexes.claims = l.indexes.claims ++ [w.claim asrtId]) ∧
        (KeysOwn sha256 l → ∃ d ∈ l'.indexes.claims, d.asrtId = id ∧ w.SaidBy d ∧
          l'.hasActiveRevocation id = false)) ∧
    (Reachable sha256 l → KeysOwn sha256 l) := by
  have houtcome := @replaceOutcome sha256 _ hl.sound heager w oldRestTerms _ _ hid hfresh hne revokedAt
    ingestedAt
  generalize replaceField sha256 l w oldRestTerms revokerAsrtId revokedAt asrtId ingestedAt = res
    at houtcome
  refine ⟨?_, ?_, fun h => h.keysOwn⟩
  · intro l' e h
    subst h
    cases houtcome
    rfl
  · intro l' revoker id h
    subst h
    cases houtcome with
    | @replaced c l₁ _ _ key m found step lazyMetaKeys claims keys revokes written prepared set =>
    have hl₁ : l₁.Sound := hl.sound.step step
    have heager₁ : l₁.isLazy "ingest_key" = false := (isLazy_congr lazyMetaKeys _).trans heager
    have hset := setField_ok heager₁ prepared set
    have hrevokes : l'.indexes.revokesData =
        l.indexes.revokesData ++ [⟨revokerAsrtId, c.asrtId⟩] := by
      rcases hset with ⟨rfl, _⟩ | ⟨_, _, _, _, hsame⟩
      · exact revokes
      · exact hsame.trans revokes
    have hl' : l'.Sound := by
      rcases hset with ⟨rfl, _⟩ | ⟨hstep, _⟩
      · exact hl₁
      · exact hl₁.step hstep
    refine ⟨c, found, hrevokes, ?_, ?_, ?_⟩
    · intro a
      rw [hl'.hasActiveRevocation_iff, hl.sound.hasActiveRevocation_iff, hrevokes]
      simp only [List.mem_append, List.mem_singleton, or_and_right, exists_or, exists_eq_left]
      rw [or_comm, eq_comm]
    · rcases hset with ⟨rfl, _⟩ | ⟨_, _, hclaims, _⟩
      · exact .inl claims
      · exact .inr (claims ▸ hclaims)
    · intro hown
      rcases hset with ⟨rfl, hfind⟩ | ⟨_, rfl, hclaims, _, hsame⟩
      · -- the key belongs to a claim that was there before
        have hown₁ : KeysOwn sha256 l' :=
          @KeysOwn.grow _ _ _ hown [] [] (by simpa using claims) (by simpa using keys) (by simp)
        have hactive := activeWith_of_find hl₁ hown₁.known hfind
        rcases hown₁.saidBy hsha prepared hactive.key with ⟨d, hd, hdid, hsaid⟩
        exact ⟨d, hd, hdid, hsaid, hactive.active⟩
      · refine ⟨w.claim id, ?_, rfl, saidBy_self prepared id, ?_⟩
        · rw [hclaims]
          exact List.mem_append_right _ List.mem_cons_self
        · have hnot : id ∉ l₁.writtenIds := by
            rw [written, List.mem_append, List.mem_singleton]
            exact fun h => h.elim hfresh hne
          have hold := (hasActiveRevocation_false_iff hl₁).mp (active_of_fresh hl₁ hnot)
          exact (hasActiveRevocation_false_iff hl').mpr (hsame ▸ hold)

/-! ## Two runs -/

/-- A ledger of the write protocol is one that public writes lead to. -/
theorem Reachable.store (hl : Reachable sha256 l) : l.Reachable := by
  rcases hl with ⟨lazyKeys, ops, _, rfl⟩
  -- a field command is at most one write of the ledger; a replacement is two
  have hset : ∀ {l : Ledger}, l.Reachable → ∀ (w : FieldWrite) (asrtId : String) (ingestedAt : Int64),
      (setField sha256 l w asrtId ingestedAt).1.Reachable := by
    intro l hl w asrtId ingestedAt
    unfold setField
    rcases w.prepare sha256 with e | ⟨m, key⟩
    · exact hl
    dsimp only
    rcases w.assertionArgs m key asrtId ingestedAt with e | args
    · exact hl
    · exact hl.run (.assertion args)
  have hretract : ∀ {l : Ledger}, l.Reachable → ∀ (a : String) (m : Option MetaDict) (revoker : String)
      (ingestedAt : Int64), (retractByAsrt l a m revoker ingestedAt).1.Reachable := by
    intro l hl a m revoker ingestedAt
    unfold retractByAsrt
    rcases checkRetraction l a with e | _
    · exact hl
    dsimp only
    rcases l.findRevoker a with _ | existing
    · dsimp only
      rcases metaRowsForRetraction a m revoker ingestedAt with e | rows
      · exact hl
      · exact hl.run (.revocation _)
    · exact hl
  have hrun : ∀ (ops : List FieldOp) (l : Ledger), l.Reachable →
      (ops.foldl (FieldOp.run sha256) l).Reachable := by
    intro ops
    induction ops with
    | nil => exact fun l hl => hl
    | cons op ops ih =>
      intro l hl
      apply ih
      cases op with
      | setField w asrtId ingestedAt => exact hset hl w asrtId ingestedAt
      | addField w asrtId ingestedAt => exact hset hl w asrtId ingestedAt
      | retractByAsrt a m revoker ingestedAt => exact hretract hl a m revoker ingestedAt
      | replaceField w old revoker revokedAt asrtId ingestedAt =>
        unfold FieldOp.run replaceField
        dsimp only
        split
        · exact hl
        · exact hl
        · rcases findActiveMatchingClaim l w.predId w.eRef old with _ | a
          · exact hl
          · have h := hretract hl a w.metaData revoker revokedAt
            dsimp only
            generalize retractByAsrt l a w.metaData revoker revokedAt = r at h ⊢
            rcases r with ⟨l₁, e | id⟩
            · exact h
            · exact hset h w asrtId ingestedAt
  exact hrun ops _ ⟨lazyKeys, [], rfl⟩

/-- The write of another age. -/
def birthdayWrite : FieldWrite := { ageWrite with restTerms := [("int", .leaf (.int 31))] }

/-- A ledger with one age. -/
def thirtyLedger : Ledger := FieldOp.run id Ledger.empty (.setField ageWrite "a1" 1)

/-- The age is replaced. -/
theorem replaceField_atomic_thirtyLedger :
    ∃ d ∈ (replaceField id thirtyLedger birthdayWrite ageWrite.restTerms "r1" 2 "a2" 3).1.indexes.claims,
      d.asrtId = "a2" ∧ birthdayWrite.SaidBy d := by
  have hreach : Reachable id thirtyLedger := ⟨[], [.setField ageWrite "a1" 1], by simp, rfl⟩
  -- one evaluation, so that the first write is made once
  obtain ⟨hfresh, hok, heager⟩ : "a2" ∉ thirtyLedger.writtenIds ∧
      (replaceField id thirtyLedger birthdayWrite ageWrite.restTerms "r1" 2 "a2" 3).2 =
        .ok ("r1", "a2") ∧ thirtyLedger.isLazy "ingest_key" = false := by
    decide +kernel
  rcases @replaceField_atomic id thirtyLedger Function.injective_id hreach.store heager
    birthdayWrite ageWrite.restTerms "r1" "a2" (by decide) hfresh (by decide) 2 3 with
    ⟨_, hreplaced, hown⟩
  generalize replaceField id thirtyLedger birthdayWrite ageWrite.restTerms "r1" 2 "a2" 3 = res
    at hok hreplaced ⊢
  rcases hreplaced res.1 "r1" "a2" (Prod.ext rfl hok) with ⟨_, _, _, _, _, hsaid⟩
  rcases hsaid (hown hreach) with ⟨d, hd, hid, hsaid, _⟩
  exact ⟨d, hd, hid, hsaid⟩

/-- The key `set_field` gives the write of the other age. -/
def birthdayKey : String :=
  match birthdayWrite.prepare id with
  | .ok (_, key) => key
  | .error _ => ""

/-- A ledger on which the claim of a third age was appended under that key. -/
def foreignLedger : Ledger :=
  [Write.assertion { claim := ageWrite.claim "a1"
                     claimArgs := [⟨"a1", 0, .int 30, "int"⟩]
                     metaRows := [] },
    Write.assertion { claim := { birthdayWrite.claim "a2" with restTerms := [("int", .leaf (.int 99))] }
                      claimArgs := [⟨"a2", 0, .int 99, "int"⟩]
                      metaRows := []
                      idempotency := some ⟨birthdayKey, .skip⟩ }].foldl Write.run Ledger.empty

/-- There the call returns the id of the claim of the third age, and no claim says the new one. -/
theorem replaceField_foreignLedger :
    foreignLedger.Reachable ∧
      (replaceField id foreignLedger birthdayWrite ageWrite.restTerms "r1" 2 "a3" 3).2 =
        .ok ("r1", "a2") ∧
      ∀ c ∈ (replaceField id foreignLedger birthdayWrite ageWrite.restTerms "r1" 2 "a3"
        3).1.indexes.claims, c.restTerms ≠ birthdayWrite.restTerms := by
  refine ⟨⟨[], _, rfl⟩, ?_⟩
  decide +kernel

end FactGraph.Evidence
