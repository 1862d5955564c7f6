import FactGraph.Evidence.IngestKeys
import FactGraph.Protocol.Normal

/-!
# What an ingest key is made of

An ingest key is a digest of the predicate, the entity and the terms of a write, framed so that each
can be read back. With a digest without collisions two writes under one key therefore say the same
(`computeIngestKey_inj`). On a ledger that only the write protocol wrote to, every key was computed
from the claim that has it (`KeysOwn`); a claim that is found by the key of a write says what the write
says.
-/

namespace FactGraph.Evidence

open Protocol Store Check Indexes

/-- The typed terms are the same after the encoder has normalised them. -/
def SameTerms (ts us : List Term) : Prop :=
  ∃ ns, mapOk normaliseTerm ts = .ok ns ∧ mapOk normaliseTerm us = .ok ns

/-- The claim says what the write says. -/
structure FieldWrite.SaidBy (w : FieldWrite) (c : Claim) : Prop where
  predId : c.predId = w.predId
  eRef : c.eRef = w.eRef
  terms : SameTerms c.restTerms w.restTerms

/-- What stands between a beginning and an end of known lengths. -/
theorem SameTerms.middle {front front' ts us back back' : List Term}
    (h : SameTerms (front ++ (ts ++ back)) (front' ++ (us ++ back')))
    (hfront : front.length = front'.length) (hback : back.length = back'.length) :
    SameTerms front front' ∧ SameTerms ts us := by
  rcases h with ⟨ns, hns, hns'⟩
  rw [mapOk_ok_iff] at hns hns'
  have hlen : ts.length = us.length := by
    have hleft := hns.length_eq
    have hright := hns'.length_eq
    simp only [List.length_append] at hleft hright
    omega
  have htake := List.forall₂_take front.length hns
  have htake' := List.forall₂_take front'.length hns'
  have hdrop := List.forall₂_take ts.length (List.forall₂_drop front.length hns)
  have hdrop' := List.forall₂_take us.length (List.forall₂_drop front'.length hns')
  rw [List.take_left] at htake htake'
  rw [List.drop_left, List.take_left] at hdrop hdrop'
  rw [← hfront] at htake' hdrop'
  rw [← hlen] at hdrop'
  exact ⟨⟨_, mapOk_ok_iff.mpr htake, mapOk_ok_iff.mpr htake'⟩,
    ⟨_, mapOk_ok_iff.mpr hdrop, mapOk_ok_iff.mpr hdrop'⟩⟩

theorem SameTerms.cons {t u : Term} {ts us : List Term} (h : SameTerms (t :: ts) (u :: us)) :
    (∃ n, normaliseTerm t = .ok n ∧ normaliseTerm u = .ok n) ∧ SameTerms ts us := by
  rcases h with ⟨ns, hns, hns'⟩
  rw [mapOk_ok_iff] at hns hns'
  cases hns with
  | cons hn hns =>
    cases hns' with
    | cons hn' hns' => exact ⟨⟨_, hn, hn'⟩, ⟨_, mapOk_ok_iff.mpr hns, mapOk_ok_iff.mpr hns'⟩⟩

/-- Texts are normalised to themselves. -/
theorem text_of_normaliseTerm {tag s t : String} (htag : tag = "string" ∨ tag = "entity_ref")
    (h : ∃ n, normaliseTerm (tag, .leaf (.str s)) = .ok n ∧
      normaliseTerm (tag, .leaf (.str t)) = .ok n) : s = t := by
  have hone : ∀ {s : String} {n}, normaliseTerm (tag, .leaf (.str s)) = .ok n →
      n = (tag, .text s) := by
    intro s n hn
    rcases htag with rfl | rfl
    · exact (Except.ok.inj hn).symm
    · rcases map_ok_iff.mp hn with ⟨m, hm, rfl⟩
      have href : (requireEntityRef (.leaf (.str s))).map Normal.text = .ok m := hm
      rcases map_ok_iff.mp href with ⟨r, hr, rfl⟩
      have hsame : (if startsWith entityRefPrefix s = true then Except.ok s
          else Except.error (StoreErr.valueError "entity_ref must start with idref_v1:")) =
        Except.ok r := hr
      split at hsame
      · rw [Except.ok.inj hsame]
      · cases hsame
  rcases h with ⟨n, hs, ht⟩
  have heq := (hone hs).symm.trans (hone ht)
  exact Normal.text.inj (Prod.ext_iff.mp heq).2

variable {sha256 : List UInt8 → List UInt8}

/-- The terms a key digests. -/
theorem computeIngestKey_ok {predId eRef : String} {ts : List Term} {m : MetaDict} {key : String}
    (h : computeIngestKey sha256 predId eRef ts m = .ok key) :
    ∃ source temporal raw, key = "sha256:" ++ hexdigest (sha256 raw) ∧
      canonicalBytesTupV1 ([("string", .leaf (.str "ingest_key_v2")),
        ("string", .leaf (.str predId)), ("entity_ref", .leaf (.str eRef))] ++
          (ts ++ [source, temporal])) = .ok raw := by
  unfold computeIngestKey at h
  rcases bind_unit_ok_iff.mp h with ⟨_, h⟩
  rcases bind_unit_ok_iff.mp h with ⟨_, h⟩
  rcases bind_unit_ok_iff.mp h with ⟨_, h⟩
  rcases bind_ok_iff.mp h with ⟨raw, hraw, h⟩
  rw [List.append_assoc] at hraw
  exact ⟨_, _, raw, (Except.ok.inj h).symm, hraw⟩

/-- The key a write is prepared under is computed from the write. -/
theorem key_of_prepare {w : FieldWrite} {m : MetaDict} {key : String}
    (h : w.prepare sha256 = .ok (m, key)) :
    computeIngestKey sha256 w.predId w.eRef w.restTerms m = .ok key := by
  unfold FieldWrite.prepare at h
  rcases bind_unit_ok_iff.mp h with ⟨_, h⟩
  rcases bind_ok_iff.mp h with ⟨m', _, h⟩
  rcases bind_ok_iff.mp h with ⟨key', hkey, h⟩
  cases h
  exact hkey

/-- **A key spells what it was computed from.** -/
theorem computeIngestKey_inj (hsha : Function.Injective sha256) {predId predId' eRef eRef' : String}
    {ts us : List Term} {m m' : MetaDict} {key : String}
    (h : computeIngestKey sha256 predId eRef ts m = .ok key)
    (h' : computeIngestKey sha256 predId' eRef' us m' = .ok key) :
    predId = predId' ∧ eRef = eRef' ∧ SameTerms ts us := by
  rcases computeIngestKey_ok h with ⟨source, temporal, raw, hkey, hraw⟩
  rcases computeIngestKey_ok h' with ⟨source', temporal', raw', hkey', hraw'⟩
  have hdigest : sha256 raw = sha256 raw' :=
    hexdigest_inj ((String.append_right_inj _).mp (hkey.symm.trans hkey'))
  rw [← hsha hdigest] at hraw'
  have hall : SameTerms _ _ := canonicalBytesTupV1_normalised hraw hraw'
  rcases hall.middle rfl rfl with ⟨hfront, hterms⟩
  -- the frame in front holds the predicate and the entity as texts
  rcases hfront.cons with ⟨_, hfront⟩
  rcases hfront.cons with ⟨hpred, hfront⟩
  rcases hfront.cons with ⟨hentity, _⟩
  exact ⟨text_of_normaliseTerm (.inl rfl) hpred, text_of_normaliseTerm (.inr rfl) hentity, hterms⟩

/-! ## The keys of a ledger -/

/-- Every ingest key of the ledger is that of a claim it was computed from. -/
def KeysOwn (sha256 : List UInt8 → List UInt8) (l : Ledger) : Prop :=
  ∀ a key, (a, key) ∈ ingestKeys l → ∃ c ∈ l.indexes.claims, c.asrtId = a ∧
    ∃ m, computeIngestKey sha256 c.predId c.eRef c.restTerms m = .ok key

/-- A claim that has the key of a write says what the write says. -/
theorem KeysOwn.saidBy (hsha : Function.Injective sha256) {l : Ledger} (hl : KeysOwn sha256 l)
    {w : FieldWrite} {m : MetaDict} {key : String} (hw : w.prepare sha256 = .ok (m, key))
    {a : String} (ha : (a, key) ∈ ingestKeys l) :
    ∃ c ∈ l.indexes.claims, c.asrtId = a ∧ w.SaidBy c := by
  rcases hl a key ha with ⟨c, hc, hid, m', hkey⟩
  rcases computeIngestKey_inj hsha hkey (key_of_prepare hw) with ⟨hpred, href, hterms⟩
  exact ⟨c, hc, hid, ⟨hpred, href, hterms⟩⟩

/-- The key of a new claim is its own; the other keys and claims stay. -/
theorem KeysOwn.grow {l l' : Ledger} (hl : KeysOwn sha256 l) {cs : List Claim}
    {keys : List (String × String)} (hclaims : l'.indexes.claims = l.indexes.claims ++ cs)
    (hkeys : ingestKeys l' = ingestKeys l ++ keys)
    (hnew : ∀ a key, (a, key) ∈ keys → ∃ c ∈ cs, c.asrtId = a ∧
      ∃ m, computeIngestKey sha256 c.predId c.eRef c.restTerms m = .ok key) : KeysOwn sha256 l' := by
  intro a key ha
  rw [hkeys] at ha
  rw [hclaims]
  rcases List.mem_append.mp ha with ha | ha
  · rcases hl a key ha with ⟨c, hc, hrest⟩
    exact ⟨c, List.mem_append_left _ hc, hrest⟩
  · rcases hnew a key ha with ⟨c, hc, hrest⟩
    exact ⟨c, List.mem_append_right _ hc, hrest⟩

theorem KeysOwn.known {l : Ledger} (hl : KeysOwn sha256 l) (a key : String)
    (h : (a, key) ∈ ingestKeys l) : ∃ c ∈ l.indexes.claims, c.asrtId = a := by
  rcases hl a key h with ⟨c, hc, hid, _⟩
  exact ⟨c, hc, hid⟩

/-! ## Runs -/

section

variable {l : Ledger}

theorem KeysOwn.setField (hown : KeysOwn sha256 l) (hl : Keyed l) (w : FieldWrite)
    (asrtId : String) (ingestedAt : Int64) :
    KeysOwn sha256 (setField sha256 l w asrtId ingestedAt).1 := by
  unfold Evidence.setField
  rcases hprepare : w.prepare sha256 with e | ⟨m, key⟩
  · exact hown
  dsimp only
  rcases hargs : w.assertionArgs m key asrtId ingestedAt with e | args
  · exact hown
  rcases parts_of_ok hargs with ⟨parts, rfl⟩
  have houtcome := fieldOutcome parts hl.eager (prepared_of_ok hprepare) ingestedAt
  dsimp only
  generalize l.appendAssertion (parts.args key ingestedAt) = r at houtcome ⊢
  cases houtcome with
  | refused e => exact hown
  | answered h => exact hown
  | written finite free lazyMetaKeys claims keys revokes =>
    apply hown.grow claims keys
    intro a k hk
    cases List.mem_singleton.mp hk
    exact ⟨w.claim asrtId, List.mem_singleton.mpr rfl, rfl, m, key_of_prepare hprepare⟩

theorem KeysOwn.retract (hown : KeysOwn sha256 l) (hl : Keyed l) (revokedAsrtId : String)
    (m : Option MetaDict) (revokerAsrtId : String) (ingestedAt : Int64) :
    KeysOwn sha256 (retractByAsrt l revokedAsrtId m revokerAsrtId ingestedAt).1 := by
  have houtcome := retractOutcome hl.eager revokedAsrtId m revokerAsrtId ingestedAt
  generalize retractByAsrt l revokedAsrtId m revokerAsrtId ingestedAt = r at houtcome ⊢
  cases houtcome with
  | refused e => exact hown
  | retracted h => exact hown
  | written step lazyMetaKeys claims keys revokes =>
    exact @KeysOwn.grow _ _ _ hown [] [] (by simpa using claims) (by simpa using keys) (by simp)

/-- **One operation keeps the keys.** -/
theorem KeysOwn.run (hown : KeysOwn sha256 l) (hl : Keyed l) (op : FieldOp) :
    KeysOwn sha256 (op.run sha256 l) := by
  cases op with
  | setField w asrtId ingestedAt => exact hown.setField hl w asrtId ingestedAt
  | addField w asrtId ingestedAt => exact hown.setField hl w asrtId ingestedAt
  | retractByAsrt revokedAsrtId m revokerAsrtId ingestedAt =>
    exact hown.retract hl revokedAsrtId m revokerAsrtId ingestedAt
  | replaceField w oldRestTerms revokerAsrtId revokedAt asrtId ingestedAt =>
    unfold FieldOp.run replaceField
    dsimp only
    split
    · exact hown
    · exact hown
    · rcases findActiveMatchingClaim l w.predId w.eRef oldRestTerms with _ | old
      · exact hown
      · have hretract := hl.step
          (retractByAsrt_step hl.eager old w.metaData revokerAsrtId revokedAt)
        have hkept := hown.retract hl old w.metaData revokerAsrtId revokedAt
        dsimp only
        generalize retractByAsrt l old w.metaData revokerAsrtId revokedAt = r at hretract hkept ⊢
        rcases r with ⟨l₁, e | revoker⟩
        · exact hkept
        · exact hkept.setField hretract w asrtId ingestedAt

/-- **On a ledger that the write protocol wrote, every key is that of its claim.** -/
theorem Reachable.keysOwn (hl : Reachable sha256 l) : KeysOwn sha256 l := by
  rcases hl with ⟨lazyKeys, ops, heager, rfl⟩
  have hrun : ∀ (ops : List FieldOp) (l : Ledger), Keyed l → KeysOwn sha256 l →
      KeysOwn sha256 (ops.foldl (FieldOp.run sha256) l) := by
    intro ops
    induction ops with
    | nil => exact fun l _ hown => hown
    | cons op ops ih => exact fun l hl hown => ih _ (hl.run sha256 op) (hown.run hl op)
  apply hrun ops _ (keyed_opened heager)
  intro a key h
  cases h

end

end FactGraph.Evidence
