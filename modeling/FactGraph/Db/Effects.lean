import FactGraph.Db.Commit
import FactGraph.Store.Runs

/-!
# What a commit leaves behind

A commit that returns has appended one claim for every assertion and one revocation for every
revocation, under the ids it was given, and nothing else (`Committed`).
-/

namespace FactGraph.Db

open Protocol Store Check

/-- The claim of an assertion. -/
def AssertionInput.claim (item : AssertionInput) (asrtId : String) : Claim :=
  ⟨asrtId, item.predId, factRef item.factTuple, item.factTuple.tail⟩

/-- The claims of a commit. -/
def newClaims (assertions : List AssertionInput) (ids : Nat → String) : List Claim :=
  assertions.zipIdx.map fun p => p.1.claim (ids p.2)

/-- The revocations of a commit, which take the ids from `start` on. -/
def newRevokes (revocations : List RevocationInput) (start : Nat) (ids : Nat → String) :
    List Revokes :=
  (revocations.zipIdx start).map fun p => ⟨ids p.2, p.1.revokedAsrtId⟩

theorem newRevokes_revoked (revocations : List RevocationInput) (start : Nat) (ids : Nat → String) :
    (newRevokes revocations start ids).map (·.revokedAsrtId) =
      revocations.map (·.revokedAsrtId) := by
  unfold newRevokes
  induction revocations generalizing start with
  | nil => rfl
  | cons r rest ih => rw [List.zipIdx_cons, List.map_cons, List.map_cons, ih, List.map_cons]

/-- What a commit does to its ledger. -/
structure Committed (l l' : Ledger) (claims : List Claim) (revokes : List Revokes) : Prop where
  claims : l'.indexes.claims = l.indexes.claims ++ claims
  revokes : l'.indexes.revokesData = l.indexes.revokesData ++ revokes
  lazyMetaKeys : l'.lazyMetaKeys = l.lazyMetaKeys

theorem committed_of_commitBatch {l l' : Ledger} {b : Batch} (h : l.commitBatch b = (l', .ok ())) :
    Committed l l' (b.assertions.map (·.claim)) (b.revocations.map (·.revokes)) := by
  unfold Ledger.commitBatch at h
  cases hcheck : b.check l with
  | error e => simp [hcheck] at h
  | ok n =>
    simp only [hcheck] at h
    obtain ⟨cs, hext⟩ := Ledger.extends_session (fun t hook hb => by
      obtain ⟨cs, hw⟩ := Batch.writes_commitBody hcheck hb
      exact ⟨_, hw⟩) h
    refine ⟨?_, ?_, hext.lazyMetaKeys⟩
    · rw [hext.indexes.claims]
      simp [Batch.delta, Batch.restDelta, Delta.append, Batch.assertionsDelta_claims,
        Batch.revocationsDelta_claims, Batch.mergedAssertions_claims, l.appendsDelta_claims]
    · rw [hext.indexes.revokes]
      simp [Batch.delta, Delta.append, Batch.assertionsDelta_claims, Batch.restDelta_revokes]

/-! ## The batch of a commit -/

theorem prepareAssertion_claim {host : Host} {schemaDigest asrtId : String} {item : AssertionInput}
    {p : PreparedAssertion} (h : prepareAssertion host schemaDigest item asrtId = .ok p) :
    p.claim = item.claim asrtId := by
  unfold prepareAssertion at h
  obtain ⟨_, h⟩ := bind_unit_ok_iff.mp h
  obtain ⟨_, h⟩ := bind_unit_ok_iff.mp h
  obtain ⟨_, h⟩ := bind_unit_ok_iff.mp h
  obtain ⟨_, _, h⟩ := bind_ok_iff.mp h
  obtain ⟨_, _, h⟩ := bind_ok_iff.mp h
  cases h
  rfl

theorem prepareRevocation_record {host : Host} {l : Ledger} {added : List PreparedAssertion}
    {targets : List String} {item : RevocationInput} {revokerId : String} {p : PreparedRevocation}
    (h : prepareRevocation host l added targets item revokerId = .ok p) :
    p.record.revokerAsrtId = revokerId ∧ p.record.revokedAsrtId = item.revokedAsrtId := by
  unfold prepareRevocation at h
  obtain ⟨target, htarget, h⟩ := bind_ok_iff.mp h
  obtain ⟨_, h⟩ := bind_unit_ok_iff.mp h
  obtain ⟨_, _, h⟩ := bind_ok_iff.mp h
  obtain ⟨_, h⟩ := bind_unit_ok_iff.mp h
  cases h
  -- the token is returned as it is
  unfold requireAsrtId at htarget
  obtain ⟨_, htarget⟩ := bind_unit_ok_iff.mp htarget
  cases htarget
  exact ⟨rfl, rfl⟩

theorem prepareRevocations_revokes {host : Host} {l : Ledger} {added : List PreparedAssertion} :
    ∀ {items : List (RevocationInput × String)} {targets : List String}
      {ps : List PreparedRevocation}, prepareRevocations host l added targets items = .ok ps →
      (ps.map fun p => (⟨p.record.revokerAsrtId, p.record.revokedAsrtId⟩ : Revokes)) =
        items.map fun p => ⟨p.2, p.1.revokedAsrtId⟩ := by
  intro items
  induction items with
  | nil =>
    intro targets ps h
    cases h
    rfl
  | cons item items ih =>
    intro targets ps h
    unfold prepareRevocations at h
    obtain ⟨p, hp, h⟩ := bind_ok_iff.mp h
    obtain ⟨others, hothers, h⟩ := bind_ok_iff.mp h
    cases h
    obtain ⟨hrevoker, hrevoked⟩ := prepareRevocation_record hp
    rw [List.map_cons, List.map_cons, ih hothers, hrevoker, hrevoked]

/-- The batch holds the claims and the revocations of the commit. -/
theorem prepareChanges_batch {host : Host} {d : Database} {assertions : List AssertionInput}
    {revocations : List RevocationInput} {ids : Nat → String} {change : Change}
    (h : d.prepareChanges host assertions revocations ids = .ok change) :
    change.batch.assertions.map (·.claim) = newClaims assertions ids ∧
      change.batch.revocations.map (·.revokes) = newRevokes revocations assertions.length ids := by
  unfold Database.prepareChanges at h
  obtain ⟨_, h⟩ := bind_unit_ok_iff.mp h
  obtain ⟨parent, _, h⟩ := bind_ok_iff.mp h
  obtain ⟨prepared, hprepared, h⟩ := bind_ok_iff.mp h
  obtain ⟨_, h⟩ := bind_unit_ok_iff.mp h
  obtain ⟨_, h⟩ := bind_unit_ok_iff.mp h
  obtain ⟨revoked, hrevoked, h⟩ := bind_ok_iff.mp h
  obtain ⟨_, _, h⟩ := bind_ok_iff.mp h
  obtain ⟨_, _, h⟩ := bind_ok_iff.mp h
  obtain ⟨_, _, h⟩ := bind_ok_iff.mp h
  obtain ⟨_, _, h⟩ := bind_ok_iff.mp h
  obtain ⟨_, _, h⟩ := bind_ok_iff.mp h
  cases h
  constructor
  · have hclaims : prepared.map (·.claim) = newClaims assertions ids :=
      map_of_mapOk hprepared fun p q hp => prepareAssertion_claim hp
    rw [← hclaims]
    simp [assertionWrite]
  · have hrevokes := prepareRevocations_revokes hrevoked
    rw [List.map_map] at hrevokes
    unfold newRevokes
    simpa [revocationWrite, Function.comp_def] using hrevokes

/-- **A commit that returns** writes what it was asked to. -/
theorem committed {host : Host} {d d' : Database} {assertions : List AssertionInput}
    {revocations : List RevocationInput} {ids : Nat → String} {result : CommitResult}
    (h : d.commitChanges host assertions revocations ids = (d', .ok result)) :
    Committed d.ledger d'.ledger (newClaims assertions ids)
      (newRevokes revocations assertions.length ids) := by
  unfold Database.commitChanges at h
  cases hprepare : d.prepareChanges host assertions revocations ids with
  | error e => simp [hprepare] at h
  | ok change =>
    simp only [hprepare] at h
    obtain ⟨hclaims, hrevokes⟩ := prepareChanges_batch hprepare
    rw [← hclaims, ← hrevokes]
    apply committed_of_commitBatch
    split at h
    next => simp at h
    next => simp at h
    next l hcommit =>
      obtain ⟨rfl, _⟩ := Prod.ext_iff.mp h
      exact hcommit

end FactGraph.Db
