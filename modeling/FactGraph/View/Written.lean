import FactGraph.Evidence.Replaced
import FactGraph.View.Chosen

/-!
# What a write shows

After `set_field` the chosen claim of a group is the active claim of the group that was inserted last.
That is the claim of the write if the write appended one. A write that was answered by an active claim
of its own key changes nothing, so a value that was set, overwritten and set again stays overwritten.
-/

namespace FactGraph.View

open Protocol Store Check Latest Evidence

variable {sha256 : List UInt8 → List UInt8} {l l' : Ledger} {pred : SchemaPred}

/-- The claims are of one entity and one dimension group. -/
def SameGroup (l : Ledger) (pred : SchemaPred) (c d : Claim) : Prop :=
  groupKeyForClaim (reads l) pred c = groupKeyForClaim (reads l) pred d

/-- Groups told apart by a key. -/
theorem sameGroup_iff {active : List Claim} {key : Claim → GroupKey}
    (hkey : ∀ c ∈ active, groupKeyForClaim (reads l) pred c = .ok (key c)) {c d : Claim}
    (hc : c ∈ active) (hd : d ∈ active) : SameGroup l pred c d ↔ key c = key d := by
  unfold SameGroup
  rw [hkey c hc, hkey d hd]
  exact ⟨Except.ok.inj, congrArg Except.ok⟩

/-- **The chosen claim of a group**: it is the only one of the group, and was inserted after the
others. -/
theorem exists_chosen (hl : l.Sound) {predId : String} (hpred : pred.predId = some predId)
    (hsingle : pred.cardinality = "single") {chosen : List String}
    (h : computeChosenForPredicate (reads l) pred = .ok chosen) {t : Claim}
    (ht : t ∈ activeOf l predId) :
    ∃ c ∈ activeOf l predId, SameGroup l pred c t ∧
      ∀ d ∈ activeOf l predId, SameGroup l pred d t →
        (d.asrtId ∈ chosen ↔ d = c) ∧ (d ≠ c → (reads l).seq d < (reads l).seq c) := by
  have hseq := sequenced_activeOf hl predId
  rcases computeChosen_of_single hpred hsingle (activeClaims_of_sound hl predId) h with
    ⟨key, hkey, hmap⟩
  have hne : group key (activeOf l predId) (key t) ≠ [] := group_ne_nil_iff.mpr ⟨t, ht, rfl⟩
  have hlast := List.getLast?_eq_some_getLast hne
  generalize (group key (activeOf l predId) (key t)).getLast hne = c at hlast
  rcases mem_group.mp (List.mem_of_getLast? hlast) with ⟨hc, hkeyc⟩
  have hlasts : c ∈ lasts key (activeOf l predId) := mem_lasts.mpr (hkeyc.symm ▸ hlast)
  have hgreatest := ((mem_lasts_iff_of_ascending hseq.ascending).mp hlasts).2
  refine ⟨c, hc, (sameGroup_iff hkey hc ht).mpr hkeyc, ?_⟩
  intro d hd hdt
  have hdc : key d = key c := ((sameGroup_iff hkey hd ht).mp hdt).trans hkeyc.symm
  have hless : d ≠ c → (reads l).seq d < (reads l).seq c := by
    intro hdne
    apply lt_of_le_of_ne (hgreatest d hd hdc)
    intro heq
    have hnodup : ((activeOf l predId).map (reads l).seq).Nodup :=
      List.pairwise_map.mpr (hseq.ascending.imp Nat.ne_of_lt)
    exact hdne (List.inj_on_of_nodup_map hnodup hd hc heq)
  refine ⟨?_, hless⟩
  rw [mem_chosen_iff hseq hmap hd]
  constructor
  · intro hmem
    have hle := ((mem_lasts_iff_of_ascending hseq.ascending).mp hmem).2 c hc hdc.symm
    exact Classical.byContradiction fun hdne => absurd (hless hdne) (Nat.not_lt.mpr hle)
  · exact fun heq => heq ▸ hlasts

/-! ## After a write -/

section

variable {w : FieldWrite} {m : MetaDict} {key asrtId id : String} {ingestedAt : Int64}

/-- The claim that `set_field` returns the id of. -/
theorem exists_returned (hsha : Function.Injective sha256) (hl : Evidence.Reachable sha256 l)
    (hfresh : asrtId ∉ l.writtenIds)
    (h : setField sha256 l w asrtId ingestedAt = (l', .ok id)) :
    ∃ t ∈ activeOf l' w.predId, t.asrtId = id ∧ w.SaidBy t ∧
      (id = asrtId → ∀ d ∈ activeOf l' w.predId, d ≠ t → (reads l').seq d < (reads l').seq t) ∧
      (id ≠ asrtId → l' = l) := by
  have hkeyed := hl.keyed
  rcases hprepare : w.prepare sha256 with e | ⟨m, key⟩
  · simp [setField, hprepare] at h
  rcases setField_ok hkeyed.eager hprepare h with ⟨rfl, hfind⟩ | ⟨hstep, rfl, hclaims, _, hrevokes⟩
  · have hactive := hkeyed.findIngestKey_eq_some_iff.mp hfind
    rcases hl.keysOwn.saidBy hsha hprepare hactive.key with ⟨t, ht, hid, hsaid⟩
    refine ⟨t, mem_activeOf.mpr ⟨ht, hsaid.predId, hid ▸ hactive.active⟩, hid, hsaid, ?_, fun _ => rfl⟩
    intro heq
    exact absurd (mem_writtenIds hkeyed.sound ht) (hid ▸ heq ▸ hfresh)
  · have hl' : l'.Sound := hkeyed.sound.step hstep
    have hmem : w.claim id ∈ activeOf l' w.predId := by
      refine mem_activeOf.mpr ⟨?_, rfl, ?_⟩
      · rw [hclaims]
        exact List.mem_append_right _ List.mem_cons_self
      · have hold := (hasActiveRevocation_false_iff hkeyed.sound).mp
          (active_of_fresh hkeyed.sound hfresh)
        exact (hasActiveRevocation_false_iff hl').mpr (hrevokes ▸ hold)
    refine ⟨w.claim id, hmem, rfl, saidBy_self hprepare id, ?_, fun hne => absurd rfl hne⟩
    intro _ d hd hne
    -- the claims before it have smaller insertion sequences
    have hasc := (sequenced_of_sound hl').ascending
    rw [hclaims] at hasc
    have hdmem := (mem_activeOf.mp hd).1
    rw [hclaims] at hdmem
    rcases List.mem_append.mp hdmem with hdmem | hdmem
    · exact (List.pairwise_append.mp hasc).2.2 d hdmem _ List.mem_cons_self
    · exact absurd (List.mem_singleton.mp hdmem) hne

/-- **The value after a write.** The chosen claim of the group of a write that returned is the active
one that was inserted last. If the write appended its claim, which then has the id it was given, that
claim is chosen; otherwise the ledger is as it was, and the value reported is the value written exactly
if every active claim of the group with another value was inserted before one with this value. -/
theorem chosen_after_setField (hsha : Function.Injective sha256) (hl : Evidence.Reachable sha256 l)
    (hpred : pred.predId = some w.predId) (hsingle : pred.cardinality = "single")
    (hfresh : asrtId ∉ l.writtenIds)
    (h : setField sha256 l w asrtId ingestedAt = (l', .ok id)) {chosen : List String}
    (hchosen : computeChosenForPredicate (reads l') pred = .ok chosen) :
    ∃ t ∈ activeOf l' w.predId, t.asrtId = id ∧ w.SaidBy t ∧
      ∃ c ∈ activeOf l' w.predId, SameGroup l' pred c t ∧
        (∀ d ∈ activeOf l' w.predId, SameGroup l' pred d t →
          (d.asrtId ∈ chosen ↔ d = c) ∧ (d ≠ c → (reads l').seq d < (reads l').seq c)) ∧
        (id = asrtId → c = t) ∧ (id ≠ asrtId → l' = l) ∧
        (w.SaidBy c ↔ ∀ d ∈ activeOf l' w.predId, SameGroup l' pred d t → ¬ w.SaidBy d →
          ∃ e ∈ activeOf l' w.predId, SameGroup l' pred e t ∧ w.SaidBy e ∧
            (reads l').seq d < (reads l').seq e) := by
  rcases exists_returned hsha hl hfresh h with ⟨t, ht, hid, hsaid, hlast, hsame⟩
  have hl' : l'.Sound := by
    have hkeyed := hl.keyed.step (setField_step sha256 hl.keyed w asrtId ingestedAt)
    rw [h] at hkeyed
    exact hkeyed.sound
  rcases exists_chosen hl' hpred hsingle hchosen ht with ⟨c, hc, hct, hgroup⟩
  refine ⟨t, ht, hid, hsaid, c, hc, hct, hgroup, ?_, hsame, ?_⟩
  · intro heq
    refine Classical.byContradiction fun hne => ?_
    have hlt : (reads l').seq t < (reads l').seq c := (hgroup t ht rfl).2 fun heq => hne heq.symm
    exact absurd (hlast heq c hc hne) (Nat.lt_asymm hlt)
  · constructor
    · intro hcsaid d hd hdt hdsaid
      have hne : d ≠ c := fun heq => hdsaid (heq ▸ hcsaid)
      exact ⟨c, hc, hct, hcsaid, (hgroup d hd hdt).2 hne⟩
    · intro hall
      refine Classical.byContradiction fun hcsaid => ?_
      rcases hall c hc hct hcsaid with ⟨e, he, het, hesaid, hlt⟩
      have hne : e ≠ c := fun heq => hcsaid (heq ▸ hesaid)
      exact absurd hlt (Nat.lt_asymm ((hgroup e he het).2 hne))

/-- **A write that is retracted leaves the active claims as they were.** -/
theorem activeOf_of_retracted (hl : Evidence.Reachable sha256 l) (hfresh : asrtId ∉ l.writtenIds)
    (h : setField sha256 l w asrtId ingestedAt = (l', .ok asrtId)) {m : Option MetaDict}
    {revoker r : String} {revokedAt : Int64} {l'' : Ledger}
    (h' : retractByAsrt l' asrtId m revoker revokedAt = (l'', .ok r)) (predId : String) :
    activeOf l'' predId = activeOf l predId := by
  have hkeyed := hl.keyed
  have hwritten : ∀ c ∈ l.indexes.claims, c.asrtId ≠ asrtId := fun c hc heq =>
    hfresh (heq ▸ mem_writtenIds hkeyed.sound hc)
  have hactive := (hasActiveRevocation_false_iff hkeyed.sound).mp (active_of_fresh hkeyed.sound hfresh)
  have hkeyed' : Keyed l' := by
    have hstep := hkeyed.step (setField_step sha256 hkeyed w asrtId ingestedAt)
    rwa [h] at hstep
  rcases hprepare : w.prepare sha256 with e | ⟨_, key⟩
  · simp [setField, hprepare] at h
  rcases setField_ok hkeyed.eager hprepare h with ⟨_, hfind⟩ | ⟨_, _, hclaims, _, hrevokes⟩
  · obtain ⟨c, hc, hid⟩ := (hkeyed.findIngestKey_eq_some_iff.mp hfind).known
    exact absurd hid (hwritten c hc)
  have houtcome := retractOutcome hkeyed'.eager asrtId m revoker revokedAt
  rw [h'] at houtcome
  cases houtcome with
  | retracted hrevoker =>
    -- nothing had retracted the claim
    unfold Ledger.findRevoker at hrevoker
    rw [hkeyed'.sound.coherent.firstRevoker] at hrevoker
    obtain ⟨s, hs, _⟩ := Option.map_eq_some_iff.mp hrevoker
    have hmem := List.mem_of_find?_eq_some hs
    rw [hrevokes] at hmem
    exact absurd (by simpa using List.find?_some hs) (hactive s hmem)
  | written step _ claims _ revokes =>
    have hrevoked (a : String) : l''.hasActiveRevocation a = true ↔
        l.hasActiveRevocation a = true ∨ asrtId = a := by
      rw [(hkeyed'.sound.step step).hasActiveRevocation_iff, hkeyed.sound.hasActiveRevocation_iff,
        revokes, hrevokes]
      simp [or_and_right, exists_or]
    unfold activeOf
    rw [claims, hclaims, List.filter_append]
    have hnew : l''.hasActiveRevocation (w.claim asrtId).asrtId = true := (hrevoked _).mpr (.inr rfl)
    simp only [List.filter_singleton, hnew, Bool.not_true, Bool.and_false, Bool.cond_false,
      List.append_nil]
    apply List.filter_congr
    intro c hc
    congr 2
    rw [Bool.eq_iff_iff, hrevoked, or_iff_left (hwritten c hc).symm]

/-- An age, written and retracted. -/
theorem activeOf_of_retracted_age :
    activeOf retractedLedger "person:age" = activeOf Ledger.empty "person:age" := by
  have hl : Evidence.Reachable plainDigest Ledger.empty := ⟨[], [], by simp, rfl⟩
  have hset : setField plainDigest Ledger.empty ageWrite "a1" 1 = (agedLedger, .ok "a1") :=
    Prod.ext rfl (by rfl)
  exact activeOf_of_retracted hl List.not_mem_nil hset (Prod.ext rfl (by rfl)) _

end

/-! ## Set, overwritten, set again -/

def singleAgePred : SchemaPred := { predId := some "person:age", groupKeyIndexes := some [some 0] }

/-- The first age, overwritten. -/
def overwrittenLedger : Ledger := FieldOp.run id thirtyLedger (.setField birthdayWrite "a2" 2)

/-- The age that overwrites is chosen. -/
theorem chosen_after_setField_overwrittenLedger :
    ∃ c ∈ activeOf overwrittenLedger birthdayWrite.predId, c.asrtId = "a2" ∧
      birthdayWrite.SaidBy c ∧ ∀ d ∈ activeOf overwrittenLedger birthdayWrite.predId,
        SameGroup overwrittenLedger singleAgePred d c → (d.asrtId ∈ ["a2"] ↔ d = c) := by
  have hreach : Evidence.Reachable id thirtyLedger :=
    ⟨[], [.setField ageWrite "a1" 1], by simp, rfl⟩
  -- one evaluation, so that the first write is made once
  obtain ⟨hfresh, hok, hchosen⟩ : "a2" ∉ thirtyLedger.writtenIds ∧
      (setField id thirtyLedger birthdayWrite "a2" 2).2 = .ok "a2" ∧
      computeChosenForPredicate (reads overwrittenLedger) singleAgePred = .ok ["a2"] := by
    decide +kernel
  have hrun : (setField id thirtyLedger birthdayWrite "a2" 2).1 = overwrittenLedger := by
    unfold overwrittenLedger FieldOp.run
    rfl
  have hset : setField id thirtyLedger birthdayWrite "a2" 2 = (overwrittenLedger, .ok "a2") := by
    rw [← hrun, ← hok]
  have hpred : singleAgePred.predId = some birthdayWrite.predId := rfl
  have hsingle : singleAgePred.cardinality = "single" := rfl
  rcases chosen_after_setField Function.injective_id hreach hpred hsingle hfresh hset hchosen with
    ⟨t, _, hid, hsaid, c, hc, hct, hgroup, hnew, _⟩
  have heq := hnew rfl
  subst heq
  exact ⟨c, hc, hid, hsaid, fun d hd hdc => (hgroup d hd hdc).1⟩

/-- Setting the first age again returns the first claim and leaves the other age chosen. -/
theorem setField_again_not_chosen :
    (setField id overwrittenLedger ageWrite "a3" 3).2 = .ok "a1" ∧
      computeChosenForPredicate (reads (setField id overwrittenLedger ageWrite "a3" 3).1)
        singleAgePred = .ok ["a2"] ∧
      ∀ c ∈ (setField id overwrittenLedger ageWrite "a3" 3).1.indexes.claims,
        c.asrtId = "a2" → c.restTerms ≠ ageWrite.restTerms := by
  decide +kernel

end FactGraph.View
