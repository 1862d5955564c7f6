import FactGraph.Lib.Latest
import FactGraph.View.Projector

/-!
# Which claims are selected

The chosen claim of a group is the one that was inserted last: `chooseOne` takes the greatest
insertion sequence, and insertion sequences grow along the list of claims. So of a single-valued
predicate the selection keeps exactly the last active claim of every group
(`keeps_of_selectActive`).

The results are about any record of reads that numbers the active claims in the order it lists them
(`LedgerReads.Sequenced`); a plain ledger does, and so does every filtered view of one.
-/

namespace FactGraph.View

open Protocol Store Check Latest

/-- The insertion sequence of a claim, zero if it has none. -/
def LedgerReads.seq (r : LedgerReads) (c : Claim) : Nat :=
  match r.claimSequence c.asrtId with
  | .ok (some n) => n
  | _ => 0

/-- Every claim of the list has an insertion sequence, and they grow along the list. -/
structure LedgerReads.Sequenced (r : LedgerReads) (claims : List Claim) : Prop where
  sequence : ∀ c ∈ claims, r.claimSequence c.asrtId = .ok (some (r.seq c))
  ascending : claims.Pairwise fun c d => r.seq c < r.seq d

variable {r : LedgerReads} {claims : List Claim}

theorem LedgerReads.Sequenced.sub (h : r.Sequenced claims) {claims' : List Claim}
    (hsub : claims'.Sublist claims) : r.Sequenced claims' :=
  ⟨fun c hc => h.sequence c (hsub.subset hc), h.ascending.sublist hsub⟩

theorem LedgerReads.Sequenced.nodup (h : r.Sequenced claims) : claims.Nodup := by
  apply h.ascending.imp
  intro c d hlt he
  subst he
  exact Nat.lt_irrefl _ hlt

/-- An id names one claim. -/
theorem LedgerReads.Sequenced.inj (h : r.Sequenced claims) {c d : Claim} (hc : c ∈ claims)
    (hd : d ∈ claims) (hid : c.asrtId = d.asrtId) : c = d := by
  have hnodup : (claims.map r.seq).Nodup :=
    List.pairwise_map.mpr (h.ascending.imp Nat.ne_of_lt)
  apply List.inj_on_of_nodup_map hnodup hc hd
  unfold LedgerReads.seq
  rw [hid]

/-! ## `choose_one` -/

/-- The candidates `choose_one` compares. -/
theorem candidates_of_sequenced (h : r.Sequenced claims) :
    mapOk (candidate r) (claims.map (·.asrtId)) =
      .ok (claims.map fun c => (c.asrtId, r.seq c)) := by
  rw [mapOk_ok_iff, List.forall₂_map_left_iff, List.forall₂_map_right_iff, List.forall₂_same]
  intro c hc
  unfold candidate
  rw [h.sequence c hc]
  rfl

/-- **The chosen one is the last.** -/
theorem chooseOne_of_sequenced (h : r.Sequenced claims) {c : Claim}
    (hlast : claims.getLast? = some c) :
    chooseOne r (claims.map (·.asrtId)) = .ok c.asrtId := by
  have hasc : (claims.map fun c => (c.asrtId, r.seq c)).Pairwise fun p q => p.2 < q.2 :=
    List.pairwise_map.mpr h.ascending
  have hmax : (claims.map fun c => (c.asrtId, r.seq c)).argmax (·.2) =
      some (c.asrtId, r.seq c) := by
    rw [argmax_of_ascending hasc, List.getLast?_map, hlast]
    rfl
  unfold chooseOne
  rw [candidates_of_sequenced h]
  simp only [ok_bind]
  rw [hmax]

/-! ## Groups -/

/-- The groups are those of the claims, by id. -/
theorem mem_groupsOf {key : Claim → GroupKey} {g : GroupKey × List String} :
    g ∈ groupsOf (claims.map fun c => (key c, c.asrtId)) ↔
      g.2 = (group key claims g.1).map (·.asrtId) ∧ ∃ c ∈ claims, key c = g.1 := by
  unfold groupsOf
  rw [show g = (g.1, g.2) from rfl, Buckets.mem_ofList, List.filter_map, List.map_map]
  simp only [List.mem_map, exists_exists_and_eq_and]
  rfl

/-- **The chosen ids are those of the last claims of the groups.** -/
theorem mem_chosen_iff {key : Claim → GroupKey} (h : r.Sequenced claims) {chosen : List String}
    (hchosen : mapOk (fun g => chooseOne r g.2)
      (groupsOf (claims.map fun c => (key c, c.asrtId))) = .ok chosen)
    {c : Claim} (hc : c ∈ claims) : c.asrtId ∈ chosen ↔ c ∈ lasts key claims := by
  -- the answer of a group is the id of its last claim
  have hone : ∀ k d, (group key claims k).getLast? = some d →
      chooseOne r ((group key claims k).map (·.asrtId)) = .ok d.asrtId := fun k d hd =>
    chooseOne_of_sequenced (h.sub (group_sublist key claims k)) hd
  rw [mem_lasts]
  constructor
  · intro hmem
    obtain ⟨⟨k, ids⟩, hg, hval⟩ := mem_of_mapOk hchosen hmem
    obtain ⟨hids, hne⟩ := mem_groupsOf.mp hg
    simp only at hids hne hval
    subst hids
    cases hd : (group key claims k).getLast? with
    | none =>
      rw [List.getLast?_eq_none_iff] at hd
      exact absurd hd (group_ne_nil_iff.mpr hne)
    | some d =>
      rw [hone k d hd, Except.ok.injEq] at hval
      obtain ⟨hdmem, hkd⟩ := mem_group.mp (List.mem_of_getLast? hd)
      have hdc : d = c := h.inj hdmem hc hval
      subst hdc
      subst hkd
      exact hd
  · intro hlast
    have hg : (key c, (group key claims (key c)).map (·.asrtId)) ∈
        groupsOf (claims.map fun c => (key c, c.asrtId)) :=
      mem_groupsOf.mpr ⟨rfl, c, hc, rfl⟩
    obtain ⟨answer, hmem, hval⟩ := image_of_mapOk hchosen hg
    simp only at hval
    rw [hone (key c) c hlast, Except.ok.injEq] at hval
    rw [hval]
    exact hmem

/-! ## The selection -/

/-- What a predicate's view keeps of its active claims. -/
inductive Keeps (r : LedgerReads) (pred : SchemaPred) (active : List Claim) : List Claim → Prop
  | multi (h : pred.cardinality = "multi") : Keeps r pred active active
  | single (h : pred.cardinality = "single") (key : Claim → GroupKey)
      (hkey : ∀ c ∈ active, groupKeyForClaim r pred c = .ok (key c)) :
      Keeps r pred active (lasts key active)

/-- The claims of a loop that found every key, by the key of each. -/
theorem keyed_of_mapOk {pred : SchemaPred} {keyed : List (GroupKey × String)}
    (h : mapOk (fun c => (groupKeyForClaim r pred c).map fun k => (k, c.asrtId)) claims =
      .ok keyed) :
    ∃ key : Claim → GroupKey, (∀ c ∈ claims, groupKeyForClaim r pred c = .ok (key c)) ∧
      keyed = claims.map fun c => (key c, c.asrtId) := by
  -- the key a claim has, whatever it is for a claim that has none
  let key : Claim → GroupKey := fun c =>
    match groupKeyForClaim r pred c with
    | .ok k => k
    | .error _ => ("", "", [])
  have hkey : ∀ c ∈ claims, groupKeyForClaim r pred c = .ok (key c) := by
    intro c hc
    obtain ⟨p, _, hp⟩ := image_of_mapOk h hc
    simp only [key]
    cases hk : groupKeyForClaim r pred c with
    | error e => simp [hk, Except.map] at hp
    | ok k => rfl
  have hall : mapOk (fun c => (groupKeyForClaim r pred c).map fun k => (k, c.asrtId)) claims =
      .ok (claims.map fun c => (key c, c.asrtId)) := by
    rw [mapOk_ok_iff, List.forall₂_map_right_iff, List.forall₂_same]
    intro c hc
    rw [hkey c hc]
    rfl
  rw [hall, Except.ok.injEq] at h
  exact ⟨key, hkey, h.symm⟩

/-- What `compute_chosen_for_predicate` answers on a single-valued predicate. -/
theorem computeChosen_of_single {pred : SchemaPred} {predId : String} {active : List Claim}
    {chosen : List String} (hp : pred.predId = some predId) (hsingle : pred.cardinality = "single")
    (hactive : activeClaims r predId = .ok active)
    (h : computeChosenForPredicate r pred = .ok chosen) :
    ∃ key : Claim → GroupKey, (∀ c ∈ active, groupKeyForClaim r pred c = .ok (key c)) ∧
      mapOk (fun g => chooseOne r g.2)
        (groupsOf (active.map fun c => (key c, c.asrtId))) = .ok chosen := by
  unfold computeChosenForPredicate at h
  rw [hp] at h
  simp only at h
  obtain ⟨_, h⟩ := bind_unit_ok_iff.mp h
  rw [hactive] at h
  simp only [ok_bind, hsingle] at h
  rw [if_neg (by decide)] at h
  obtain ⟨_, h⟩ := bind_unit_ok_iff.mp h
  obtain ⟨keyed, hkeyed, h⟩ := bind_ok_iff.mp h
  obtain ⟨key, hkey, rfl⟩ := keyed_of_mapOk hkeyed
  exact ⟨key, hkey, h⟩

/-- Claims that all have a group key have chosen ones. -/
theorem exists_computeChosen {pred : SchemaPred} {predId : String} {active : List Claim}
    {key : Claim → GroupKey} (hp : pred.predId = some predId) (hne : predId ≠ "")
    (hsingle : pred.cardinality = "single") (hactive : activeClaims r predId = .ok active)
    (hseq : r.Sequenced active) (hkey : ∀ c ∈ active, groupKeyForClaim r pred c = .ok (key c)) :
    ∃ chosen, computeChosenForPredicate r pred = .ok chosen := by
  have hkeyed : mapOk (fun c => (groupKeyForClaim r pred c).map fun k => (k, c.asrtId)) active =
      .ok (active.map fun c => (key c, c.asrtId)) := by
    rw [mapOk_ok_iff, List.forall₂_map_right_iff, List.forall₂_same]
    intro c hc
    rw [hkey c hc]
    rfl
  obtain ⟨chosen, hchosen⟩ : ∃ chosen, mapOk (fun g => chooseOne r g.2)
      (groupsOf (active.map fun c => (key c, c.asrtId))) = .ok chosen := by
    apply exists_mapOk
    intro g hg
    obtain ⟨hids, hne⟩ := mem_groupsOf.mp hg
    cases hlast : (group key active g.1).getLast? with
    | none =>
      rw [List.getLast?_eq_none_iff] at hlast
      exact absurd hlast (group_ne_nil_iff.mpr hne)
    | some c =>
      refine ⟨c.asrtId, ?_⟩
      rw [hids]
      exact chooseOne_of_sequenced (hseq.sub (group_sublist key active g.1)) hlast
  refine ⟨chosen, ?_⟩
  unfold computeChosenForPredicate
  rw [hp]
  simp only [require_of_true (show decide (predId ≠ "") = true by simpa using hne), ok_bind, hactive,
    hsingle]
  rw [if_neg (by decide), require_of_true (by decide), ok_bind, hkeyed, ok_bind]
  exact hchosen

/-- **What the selection keeps**: of a multi-valued predicate every active claim, of a single-valued
one the last active claim of every group. -/
theorem keeps_of_selectActive {pred : SchemaPred} {predId : String} {active selected : List Claim}
    (hp : pred.predId = some predId) (hactive : activeClaims r predId = .ok active)
    (hseq : r.Sequenced active) (h : selectActive r pred predId = .ok selected) :
    Keeps r pred active selected := by
  unfold selectActive at h
  rw [hactive] at h
  simp only [ok_bind] at h
  by_cases hsingle : pred.cardinality = "single"
  · rw [if_pos hsingle] at h
    obtain ⟨chosen, hchosen, h⟩ := bind_ok_iff.mp h
    cases h
    have hcompute : computeChosenForPredicate r pred = .ok chosen := by
      unfold adaptPolicy at hchosen
      split at hchosen
      · cases hchosen
      · exact hchosen
    obtain ⟨key, hkey, hmap⟩ := computeChosen_of_single hp hsingle hactive hcompute
    have hfilter : (active.filter fun c => c.asrtId ∈ chosen) = lasts key active := by
      unfold lasts
      apply List.filter_congr
      intro c hc
      rw [decide_eq_decide, mem_chosen_iff hseq hmap hc, mem_lasts]
    rw [hfilter]
    exact .single hsingle key hkey
  · rw [if_neg hsingle] at h
    obtain ⟨hmulti, h⟩ := bind_unit_ok_iff.mp h
    cases h
    exact .multi (by simpa using hmulti)

end FactGraph.View
