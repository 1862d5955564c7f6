import Mathlib
import FactGraph.Lib.Inverted
import FactGraph.Mapping.Canon

/-!
# What the tie break picks

The mode `latest_by_ingested_at_then_min_assertion_id` names the candidate it is to pick: of the
latest `ingested_at`, and of these the least id (`LatestThenLeast`). It picks with one `max`, over the
ids with their characters negated, and negating turns the order of two ids around only where they
differ at a position. So the mode picks what it names exactly when no id of the tie extends the least
one (`argmax_eq_iff`).
-/

namespace FactGraph.Mapping

open Protocol Store View Check

/-! ## The candidate the mode names -/

/-- The candidate has the latest `ingested_at`, and the least id of those that have it. -/
structure LatestThenLeast (candidates : List MappingCandidate) (c : MappingCandidate) : Prop where
  mem : c ∈ candidates
  latest : ∀ d ∈ candidates, d.ingestedAt ≤ c.ingestedAt
  least : ∀ d ∈ candidates, d.ingestedAt = c.ingestedAt → c.asrtId ≤ d.asrtId

/-- No other candidate of the tie has an id that extends the id of the candidate. -/
def NoExtension (candidates : List MappingCandidate) (c : MappingCandidate) : Prop :=
  ∀ d ∈ candidates, d.ingestedAt = c.ingestedAt → c.asrtId.toList <+: d.asrtId.toList → d = c

variable {candidates supplied : List MappingCandidate} {c d : MappingCandidate}

theorem LatestThenLeast.of_perm (h : supplied.Perm candidates) (hc : LatestThenLeast candidates c) :
    LatestThenLeast supplied c where
  mem := h.mem_iff.mpr hc.mem
  latest d hd := hc.latest d (h.mem_iff.mp hd)
  least d hd := hc.least d (h.mem_iff.mp hd)

theorem NoExtension.of_perm (h : supplied.Perm candidates) (hc : NoExtension candidates c) :
    NoExtension supplied c :=
  fun d hd => hc d (h.mem_iff.mp hd)

/-- There is always one. -/
theorem exists_latestThenLeast (h : candidates ≠ []) : ∃ c, LatestThenLeast candidates c := by
  let key : MappingCandidate → Int ×ₗ Stringᵒᵈ := fun c =>
    toLex (c.ingestedAt, OrderDual.toDual c.asrtId)
  cases hmax : candidates.argmax key with
  | none => exact absurd (List.argmax_eq_none.mp hmax) h
  | some c =>
    have hle : ∀ d ∈ candidates, key d ≤ key c := fun d hd => List.le_of_mem_argmax hd hmax
    refine ⟨c, List.argmax_mem hmax, ?_, ?_⟩
    · intro d hd
      rcases Prod.Lex.toLex_le_toLex.mp (hle d hd) with hlt | ⟨heq, _⟩
      · exact le_of_lt hlt
      · exact le_of_eq heq
    · intro d hd heq
      rcases Prod.Lex.toLex_le_toLex.mp (hle d hd) with hlt | ⟨_, hid⟩
      · exact absurd heq (ne_of_lt hlt)
      · exact hid

/-! ## Negated ids -/

theorem neg_toNat_strictAnti : StrictAnti fun ch : Char => -(ch.toNat : Int) := by
  intro x y h
  have hlt : x.toNat < y.toNat := h
  show -(y.toNat : Int) < -(x.toNat : Int)
  omega

theorem invertForMinAsrt_injective : Function.Injective invertForMinAsrt := by
  intro s t h
  have hlist : s.toList = t.toList := List.map_injective_iff.mpr neg_toNat_strictAnti.injective h
  exact String.toList_inj.mp hlist

/-- Within a tie, the least id has the greatest negated id unless another one extends it. -/
theorem invert_le_iff (hc : LatestThenLeast candidates c)
    (hids : (candidates.map (·.asrtId)).Nodup) :
    (∀ d ∈ candidates, d.ingestedAt = c.ingestedAt →
      invertForMinAsrt d.asrtId ≤ invertForMinAsrt c.asrtId) ↔ NoExtension candidates c := by
  let tied : List Char → Prop := fun xs =>
    ∃ d ∈ candidates, d.ingestedAt = c.ingestedAt ∧ d.asrtId.toList = xs
  have hleast : ∀ xs, tied xs → c.asrtId.toList ≤ xs := by
    intro xs h
    rcases h with ⟨d, hd, htie, rfl⟩
    exact String.le_iff_toList_le.mp (hc.least d hd htie)
  have hgreatest := Inverted.greatest_map_iff neg_toNat_strictAnti hleast
  constructor
  · intro h d hd htie hpre
    have hid : d.asrtId.toList = c.asrtId.toList := by
      refine hgreatest.mp ?_ d.asrtId.toList ⟨d, hd, htie, rfl⟩ hpre
      intro xs hxs
      rcases hxs with ⟨e, he, hetie, rfl⟩
      exact h e he hetie
    exact List.inj_on_of_nodup_map hids hd hc.mem (String.toList_inj.mp hid)
  · intro h d hd htie
    refine hgreatest.mpr ?_ d.asrtId.toList ⟨d, hd, htie, rfl⟩
    intro xs hxs hpre
    rcases hxs with ⟨e, he, hetie, rfl⟩
    rw [h e he hetie hpre]

/-- **The `max` picks the candidate the mode names, unless another one of the tie extends its id.** -/
theorem argmax_eq_iff (hc : LatestThenLeast candidates c)
    (hids : (candidates.map (·.asrtId)).Nodup) :
    candidates.argmax latestKey = some c ↔ NoExtension candidates c := by
  rw [← invert_le_iff hc hids]
  constructor
  · intro hmax d hd htie
    rcases Prod.Lex.toLex_le_toLex.mp (List.le_of_mem_argmax hd hmax) with hlt | ⟨_, hle⟩
    · exact absurd htie (ne_of_lt hlt)
    · exact hle
  · intro h
    cases hmax : candidates.argmax latestKey with
    | none =>
      rw [List.argmax_eq_none] at hmax
      exact absurd hc.mem (hmax ▸ List.not_mem_nil)
    | some e =>
      have he : e ∈ candidates := List.argmax_mem hmax
      -- the picked candidate is at least the named one, which is at least every other
      have hce : latestKey c ≤ latestKey e := List.le_of_mem_argmax hc.mem hmax
      have hec : latestKey e ≤ latestKey c := by
        apply Prod.Lex.toLex_le_toLex.mpr
        rcases lt_or_eq_of_le (hc.latest e he) with hlt | heq
        · exact .inl hlt
        · exact .inr ⟨heq, h e he heq⟩
      have hkey : latestKey e = latestKey c := le_antisymm hec hce
      have hid : e.asrtId = c.asrtId :=
        invertForMinAsrt_injective (congrArg (fun k => (ofLex k).2) hkey)
      rw [List.inj_on_of_nodup_map hids he hc.mem hid]

/-! ## One key -/

/-- The candidates of one key. -/
def ofKey (candidates : List MappingCandidate) (k : List Rules.Value) : List MappingCandidate :=
  candidates.filter fun c => c.key = k

theorem mem_ofKey {k : List Rules.Value} : c ∈ ofKey candidates k ↔ c ∈ candidates ∧ c.key = k := by
  simp [ofKey]

/-- The candidates hold two values, so that the tie break is asked. -/
def Disagree (candidates : List MappingCandidate) : Prop :=
  ∃ c ∈ candidates, ∃ d ∈ candidates, c.value ≠ d.value

theorem Disagree.of_perm (h : supplied.Perm candidates) (hc : Disagree candidates) :
    Disagree supplied := by
  rcases hc with ⟨c, hc, d, hd, hne⟩
  exact ⟨c, h.mem_iff.mpr hc, d, h.mem_iff.mpr hd, hne⟩

theorem length_distinctValues :
    (distinctValues candidates).length =
      (Dict.keys (Buckets.ofList MappingCandidate.value (·.valueTuple) candidates)).length := by
  unfold distinctValues Dict.keys
  rw [List.length_map, List.length_filterMap_eq_countP, List.countP_eq_length]
  intro g hg
  have hgroup := Buckets.mem_ofList.mp (show (g.1, g.2) ∈ _ from hg)
  rcases hgroup with ⟨hrows, c, hc, hvalue⟩
  rw [hrows, List.isSome_head?]
  apply List.ne_nil_of_mem (a := c.valueTuple)
  exact List.mem_map.mpr ⟨c, List.mem_filter.mpr ⟨hc, by simp [hvalue]⟩, rfl⟩

/-- The set of values has at most one element when the candidates agree. -/
theorem length_distinctValues_le_iff :
    (distinctValues candidates).length ≤ 1 ↔ ¬ Disagree candidates := by
  rw [length_distinctValues]
  have hnodup := Buckets.nodup_keys_ofList MappingCandidate.value (·.valueTuple) candidates
  have hmem : ∀ v, v ∈ Dict.keys (Buckets.ofList MappingCandidate.value (·.valueTuple) candidates) ↔
      ∃ c ∈ candidates, c.value = v := fun v => Buckets.mem_keys_ofList
  generalize Dict.keys (Buckets.ofList MappingCandidate.value (·.valueTuple) candidates) = values
    at hnodup hmem
  constructor
  · intro hle h
    rcases h with ⟨c, hc, d, hd, hne⟩
    have hcv := (hmem c.value).mpr ⟨c, hc, rfl⟩
    have hdv := (hmem d.value).mpr ⟨d, hd, rfl⟩
    match values, hle, hcv, hdv with
    | [v], _, hcv, hdv =>
      exact hne ((List.mem_singleton.mp hcv).trans (List.mem_singleton.mp hdv).symm)
  · intro h
    match values, hnodup, hmem with
    | [], _, _ => simp
    | [v], _, _ => simp
    | v :: w :: rest, hnodup, hmem =>
      exfalso
      rcases (hmem v).mp (by simp) with ⟨c, hc, rfl⟩
      rcases (hmem w).mp (by simp) with ⟨d, hd, rfl⟩
      refine h ⟨c, hc, d, hd, ?_⟩
      intro heq
      exact (List.nodup_cons.mp hnodup).1 (by simp [heq])

/-- The mode of the tie break. -/
def latestMode : String := "latest_by_ingested_at_then_min_assertion_id"

variable {host : Host} {conf : TieBreakConf}

/-- A key is decided by the `max` when its candidates disagree, and by the first of them when they
agree. -/
theorem decideKey_latest (hmode : conf.mode = latestMode) (hne : candidates ≠ []) :
    ∃ first chosen reason, first ∈ candidates ∧
      decideKey host conf candidates =
        .ok (.inr (decisionOf first.keyTuple candidates chosen reason)) ∧
      chosen ∈ candidates ∧ (Disagree candidates → candidates.argmax latestKey = some chosen) := by
  cases candidates with
  | nil => exact absurd rfl hne
  | cons first rest =>
    refine ⟨first, ?_⟩
    unfold decideKey
    by_cases hvalues : (distinctValues (first :: rest)).length ≤ 1
    · refine ⟨first, "single_value", List.mem_cons_self, if_pos hvalues, List.mem_cons_self, ?_⟩
      intro h
      exact absurd h (length_distinctValues_le_iff.mp hvalues)
    · cases hmax : (first :: rest).argmax latestKey with
      | none => exact absurd (List.argmax_eq_none.mp hmax) hne
      | some chosen =>
        have herror : ¬ conf.mode = "error" := by
          rw [hmode]
          decide
        have hchoose : chooseWithTieBreak (first :: rest) conf = .ok chosen := by
          unfold chooseWithTieBreak
          rw [hmode]
          simp only [latestMode, hmax]
        refine ⟨chosen, conf.mode, List.mem_cons_self, ?_, List.argmax_mem hmax, fun _ => rfl⟩
        simp only [if_neg hvalues, if_neg herror, hchoose, ok_bind]

/-! ## Every key -/

/-- What the resolver reports for a key is the candidate the mode names: the value of the key is its
value, and where the tie break is asked the id is its id. -/
def Resolves (candidates : List MappingCandidate) (res : MappingResolution)
    (k : List Rules.Value) : Prop :=
  ∃ c, LatestThenLeast (ofKey candidates k) c ∧ ∃ d ∈ res.decisions,
    d.keyTuple.map (·.canon) = k ∧ (d.keyTuple, d.chosenValueTuple) ∈ res.chosenMap ∧
      d.chosenValueTuple.map (·.canon) = c.value ∧
      (Disagree (ofKey candidates k) → d.chosenAsrtId = c.asrtId)

theorem ofKey_perm (h : supplied.Perm candidates) (k : List Rules.Value) :
    (ofKey supplied k).Perm (ofKey candidates k) :=
  h.filter _

theorem ofKey_nodup (hids : (candidates.map (·.asrtId)).Nodup) (k : List Rules.Value) :
    ((ofKey candidates k).map (·.asrtId)).Nodup :=
  hids.sublist (List.filter_sublist.map _)

theorem mem_grouped {k : List Rules.Value} {group : List MappingCandidate} :
    (k, group) ∈ grouped candidates ↔ group = ofKey candidates k ∧ group ≠ [] := by
  unfold grouped
  rw [Buckets.mem_ofList, List.map_id]
  constructor
  · intro h
    rcases h with ⟨rfl, c, hc, hk⟩
    exact ⟨rfl, List.ne_nil_of_mem (mem_ofKey.mpr ⟨hc, hk⟩)⟩
  · intro h
    rcases h with ⟨rfl, hne⟩
    rcases List.exists_mem_of_ne_nil _ hne with ⟨c, hc⟩
    rcases mem_ofKey.mp hc with ⟨hmem, hk⟩
    exact ⟨rfl, c, hmem, hk⟩

/-- **Under the mode every set of candidates is resolved**, each key by the decision on its own
candidates. -/
theorem resolveCandidates_latest (host : Host) (predId : String) (hmode : conf.mode = latestMode)
    (candidates : List MappingCandidate) :
    ∃ res, resolveCandidates host predId conf candidates = .ok res ∧
      (∀ d, d ∈ res.decisions ↔ ∃ k, ofKey candidates k ≠ [] ∧
        decideKey host conf (ofKey candidates k) = .ok (.inr d)) ∧
      ∀ d ∈ res.decisions, (d.keyTuple, d.chosenValueTuple) ∈ res.chosenMap := by
  have hdecided : ∀ g ∈ grouped candidates, ∃ out, decideKey host conf g.2 = .ok out := by
    intro g hg
    rcases mem_grouped.mp (show (g.1, g.2) ∈ _ from hg) with ⟨_, hne⟩
    rcases @decideKey_latest _ host _ hmode hne with ⟨first, chosen, reason, _, h, _⟩
    exact ⟨_, h⟩
  rcases exists_mapOk hdecided with ⟨outcomes, houtcomes⟩
  have hright : ∀ out, out ∈ outcomes ↔ ∃ k, ofKey candidates k ≠ [] ∧
      decideKey host conf (ofKey candidates k) = .ok out := by
    intro out
    constructor
    · intro hout
      rcases mem_of_mapOk houtcomes hout with ⟨g, hg, h⟩
      rcases mem_grouped.mp (show (g.1, g.2) ∈ _ from hg) with ⟨heq, hne⟩
      exact ⟨g.1, heq ▸ hne, heq ▸ h⟩
    · intro h
      rcases h with ⟨k, hne, h⟩
      rcases image_of_mapOk houtcomes (mem_grouped.mpr ⟨rfl, hne⟩) with ⟨out', hout', h'⟩
      rw [h] at h'
      rwa [Except.ok.inj h']
  have hnone : outcomes.filterMap Sum.getLeft? = [] := by
    rw [List.filterMap_eq_nil_iff]
    intro out hout
    rcases (hright out).mp hout with ⟨k, hne, h⟩
    rcases @decideKey_latest _ host _ hmode hne with ⟨first, chosen, reason, _, h', _⟩
    rw [h] at h'
    rw [Except.ok.inj h']
    rfl
  have hmem : ∀ d, d ∈ outcomes.filterMap Sum.getRight? ↔ .inr d ∈ outcomes := by
    intro d
    rw [List.mem_filterMap]
    constructor
    · intro h
      rcases h with ⟨out, hout, hd⟩
      rwa [Sum.getRight?_eq_some_iff.mp hd] at hout
    · exact fun h => ⟨_, h, rfl⟩
  unfold resolveCandidates
  rw [houtcomes]
  simp only [ok_bind, hnone, List.isEmpty_nil, require_of_true]
  refine ⟨_, rfl, ?_, ?_⟩
  · intro d
    rw [(List.perm_insertionSort _ _).mem_iff, hmem, hright]
  · intro d hd
    rw [(List.perm_insertionSort _ _).mem_iff] at hd
    exact List.mem_map.mpr ⟨d, hd, rfl⟩

/-- The candidate a mode names is one. -/
theorem LatestThenLeast.eq (hc : LatestThenLeast candidates c) (hd : LatestThenLeast candidates d)
    (hids : (candidates.map (·.asrtId)).Nodup) : c = d := by
  have htie : c.ingestedAt = d.ingestedAt :=
    le_antisymm (hd.latest c hc.mem) (hc.latest d hd.mem)
  have hid : c.asrtId = d.asrtId :=
    le_antisymm (hc.least d hd.mem htie.symm) (hd.least c hc.mem htie)
  exact List.inj_on_of_nodup_map hids hc.mem hd.mem hid

/-- **The tie break picks the latest candidate of the least id, in whatever order the candidates are
supplied, exactly when no id of a tie extends the least one.** -/
theorem resolveCandidates_picks_iff (host : Host) (predId : String)
    (hmode : conf.mode = latestMode) (hids : (candidates.map (·.asrtId)).Nodup) :
    (∀ supplied, supplied.Perm candidates →
      ∃ res, resolveCandidates host predId conf supplied = .ok res ∧
        ∀ c ∈ candidates, Resolves candidates res c.key) ↔
      ∀ k c, Disagree (ofKey candidates k) → LatestThenLeast (ofKey candidates k) c →
        NoExtension (ofKey candidates k) c := by
  constructor
  · intro h k c hdis hc
    rcases h candidates (List.Perm.refl _) with ⟨res, hres, hall⟩
    rcases resolveCandidates_latest host predId hmode candidates with ⟨res', hres', hdec, _⟩
    rw [hres] at hres'
    rw [← Except.ok.inj hres'] at hdec
    have hkey : c.key = k := (mem_ofKey.mp hc.mem).2
    rcases hall c (mem_ofKey.mp hc.mem).1 with ⟨w, hw, d, hd, hdk, _, _, hid⟩
    rw [hkey] at hw hdk hid
    have hwc : w = c := hw.eq hc (ofKey_nodup hids k)
    subst hwc
    -- the decision on this key is the one the `max` made
    rcases (hdec d).mp hd with ⟨k', hne, hdecide⟩
    rcases @decideKey_latest _ host _ hmode hne with
      ⟨first, chosen, reason, hfirst, hdecide', hchosen, hmax⟩
    rw [hdecide] at hdecide'
    have hde : d = decisionOf first.keyTuple (ofKey candidates k') chosen reason :=
      Sum.inr.inj (Except.ok.inj hdecide')
    have hkk : k' = k := by
      rw [← hdk, hde, ← (mem_ofKey.mp hfirst).2]
      rfl
    subst hkk
    have hids' : chosen.asrtId = w.asrtId := by
      rw [← hid hdis, hde]
      rfl
    have hcw : chosen = w :=
      List.inj_on_of_nodup_map (ofKey_nodup hids k') hchosen hc.mem hids'
    exact (argmax_eq_iff hc (ofKey_nodup hids k')).mp (hcw ▸ hmax hdis)
  · intro h supplied hperm
    rcases resolveCandidates_latest host predId hmode supplied with ⟨res, hres, hdec, hmap⟩
    refine ⟨res, hres, ?_⟩
    intro c hc
    have hperm' := ofKey_perm hperm c.key
    have hne : ofKey supplied c.key ≠ [] :=
      List.ne_nil_of_mem (hperm'.mem_iff.mpr (mem_ofKey.mpr ⟨hc, rfl⟩))
    have hne' : ofKey candidates c.key ≠ [] := List.ne_nil_of_mem (mem_ofKey.mpr ⟨hc, rfl⟩)
    rcases exists_latestThenLeast hne' with ⟨w, hw⟩
    rcases @decideKey_latest _ host _ hmode hne with
      ⟨first, chosen, reason, hfirst, hdecide, hchosen, hmax⟩
    have hd := (hdec _).mpr ⟨c.key, hne, hdecide⟩
    have hkey : first.keyTuple.map (·.canon) = c.key := (mem_ofKey.mp hfirst).2
    have hpicked : Disagree (ofKey candidates c.key) → chosen = w := by
      intro hdis
      have hno : NoExtension (ofKey supplied c.key) w := (h c.key w hdis hw).of_perm hperm'
      have hargmax := (argmax_eq_iff (hw.of_perm hperm')
        (ofKey_nodup ((hperm.map _).nodup_iff.mpr hids) c.key)).mpr hno
      exact Option.some.inj ((hmax (hdis.of_perm hperm')).symm.trans hargmax)
    refine ⟨w, hw, _, hd, hkey, hmap _ hd, ?_, fun hdis => congrArg MappingCandidate.asrtId (hpicked hdis)⟩
    -- where the candidates agree, any of them has the value of the named one
    by_cases hdis : Disagree (ofKey candidates c.key)
    · show chosen.value = w.value
      rw [hpicked hdis]
    · by_contra hvalue
      exact hdis ⟨chosen, hperm'.mem_iff.mp hchosen, w, hw.mem, hvalue⟩

/-! ## A predicate of a ledger -/

theorem asrtId_of_candidateFromClaim {r : MappingReads} {keyPositions valuePositions : List Nat}
    {claim : Claim} (h : candidateFromClaim r keyPositions valuePositions claim = .ok c) :
    c.asrtId = claim.asrtId := by
  unfold candidateFromClaim at h
  rcases bind_ok_iff.mp h with ⟨args, _, h⟩
  rcases bind_ok_iff.mp h with ⟨keyTuple, _, h⟩
  rcases bind_ok_iff.mp h with ⟨valueTuple, _, h⟩
  rcases bind_ok_iff.mp h with ⟨ingestedAt, _, h⟩
  rcases bind_ok_iff.mp h with ⟨source, _, h⟩
  rw [← Except.ok.inj h]

/-- The candidates of a ledger are its active claims, which have different ids. -/
theorem candidatesOf_ids {l : Ledger} (hl : l.Sound) {predId : String}
    {keyPositions valuePositions : List Nat}
    (h : candidatesOf (mappingReads l) predId keyPositions valuePositions = .ok candidates) :
    candidates.map (·.asrtId) = (activeOf l predId).map (·.asrtId) ∧
      (candidates.map (·.asrtId)).Nodup := by
  unfold candidatesOf at h
  have hclaims : activeClaims (mappingReads l).toLedgerReads predId = .ok (activeOf l predId) :=
    activeClaims_of_sound hl predId
  rw [hclaims] at h
  have hids : candidates.map (·.asrtId) = (activeOf l predId).map (·.asrtId) :=
    map_of_mapOk h fun _ _ hc => asrtId_of_candidateFromClaim hc
  refine ⟨hids, ?_⟩
  rw [hids]
  have hseq := sequenced_activeOf hl predId
  apply List.Nodup.map_on _ hseq.nodup
  exact fun c hc d hd heq => hseq.inj hc hd heq

theorem mem_of_chooseWithTieBreak (h : chooseWithTieBreak candidates conf = .ok c) :
    c ∈ candidates := by
  unfold chooseWithTieBreak at h
  split at h
  next =>
    split at h
    next hmax =>
      cases h
      exact List.argmax_mem hmax
    next => cases h
  next =>
    split at h
    next => cases h
    next =>
      dsimp only at h
      split at h
      next hhead =>
        cases h
        exact (List.mem_insertionSort _).mp (List.mem_of_mem_head? hhead)
      next => cases h
  next => cases h

/-- The key an outcome is about. -/
def outcomeKey (out : MappingConflict ⊕ MappingDecision) : List Rules.Value :=
  (out.elim MappingConflict.keyTuple MappingDecision.keyTuple).map (·.canon)

theorem outcomeKey_of_decideKey {out : MappingConflict ⊕ MappingDecision}
    (h : decideKey host conf candidates = .ok out) :
    some (outcomeKey out) = candidates.head?.map (·.key) := by
  cases candidates with
  | nil => cases h
  | cons first rest =>
    simp only [decideKey] at h
    split at h
    · cases h
      rfl
    · split at h
      · cases h
        rfl
      · rcases bind_ok_iff.mp h with ⟨chosen, _, h⟩
        cases h
        rfl

theorem decideKey_decision {decision : MappingDecision}
    (h : decideKey host conf candidates = .ok (.inr decision)) :
    (∃ c ∈ candidates, decision.chosenValueTuple = c.valueTuple) ∧
      (conf.mode = "error" → ¬ Disagree candidates) := by
  cases candidates with
  | nil => cases h
  | cons first rest =>
    simp only [decideKey] at h
    split at h
    next hvalues =>
      cases h
      exact ⟨⟨first, List.mem_cons_self, rfl⟩, fun _ => length_distinctValues_le_iff.mp hvalues⟩
    next =>
      split at h
      next => cases h
      next hmode =>
        rcases bind_ok_iff.mp h with ⟨chosen, hchosen, h⟩
        cases h
        exact ⟨⟨chosen, mem_of_chooseWithTieBreak hchosen, rfl⟩, fun herror => absurd herror hmode⟩

theorem eq_map_inr {α β : Type} {outs : List (α ⊕ β)} (h : outs.filterMap Sum.getLeft? = []) :
    outs = (outs.filterMap Sum.getRight?).map .inr := by
  induction outs with
  | nil => rfl
  | cons out outs ih =>
    cases out with
    | inl _ => simp at h
    | inr _ => simpa using ih (by simpa using h)

/-- A resolution has one decision for each key, in the order of the keys, and maps each as decided. -/
theorem resolveCandidates_ok {predId : String} {res : MappingResolution}
    (h : resolveCandidates host predId conf candidates = .ok res) :
    res.predId = predId ∧ res.candidates.Perm candidates ∧ ∃ decisions : List MappingDecision,
      res.chosenMap = decisions.map (fun d => (d.keyTuple, d.chosenValueTuple)) ∧
      decisions.map (outcomeKey <| .inr ·) = Dict.keys (grouped candidates) ∧
      ∀ d ∈ decisions, decideKey host conf (ofKey candidates (outcomeKey (.inr d))) = .ok (.inr d) := by
  rcases bind_ok_iff.mp h with ⟨outcomes, houtcomes, h⟩
  rcases bind_unit_ok_iff.mp h with ⟨hempty, h⟩
  cases h
  have hinr := eq_map_inr (List.isEmpty_iff.mp (require_ok_iff.mp hempty))
  have hhead : ∀ g ∈ grouped candidates, g.2.head?.map (·.key) = some g.1 := by
    rintro ⟨k, group⟩ hg
    rcases mem_grouped.mp hg with ⟨rfl, hne⟩
    rcases List.exists_cons_of_ne_nil hne with ⟨first, rest, hcons⟩
    have hfirst : first ∈ ofKey candidates k := hcons ▸ List.mem_cons_self
    rw [hcons, List.head?_cons, Option.map_some, (mem_ofKey.mp hfirst).2]
  refine ⟨rfl, List.perm_insertionSort _ _, _, rfl, ?_, ?_⟩
  · have hkeys := map_of_mapOk houtcomes fun g out => outcomeKey_of_decideKey
    rw [List.map_congr_left hhead, hinr, List.map_map] at hkeys
    apply List.map_injective_iff.mpr (Option.some_injective _)
    rw [Dict.keys, List.map_map, List.map_map]
    exact hkeys
  · intro d hd
    rw [hinr] at houtcomes
    rcases mem_of_mapOk houtcomes (List.mem_map_of_mem hd) with ⟨⟨k, group⟩, hg, hdecide⟩
    have hkey := (outcomeKey_of_decideKey hdecide).trans (hhead _ hg)
    rw [Option.some.inj hkey, ← (mem_grouped.mp hg).1]
    exact hdecide

/-- **Resolving a mapping predicate gives a function.** It is resolved on the active claims of the
predicate: it maps each of their keys once, to the value of one of the claims that have the key; and
without a tie break these have one value. -/
theorem resolveMappingPredicate_function {l : Ledger} (hl : l.Reachable) {pred : MappingPred}
    {res : MappingResolution} (h : resolveMappingPredicate host (mappingReads l) pred = .ok res) :
    (res.candidates.map (·.asrtId)).Nodup ∧
      (res.candidates.map (·.asrtId)).Perm ((activeOf l res.predId).map (·.asrtId)) ∧
      (∀ c ∈ res.candidates, ∃! e, e ∈ res.chosenMap ∧ e.1.map (·.canon) = c.key) ∧
      ∀ e ∈ res.chosenMap, (∃ c ∈ res.candidates, c.key = e.1.map (·.canon) ∧ c.valueTuple = e.2) ∧
        (pred.tieBreak = .null → ∀ c ∈ res.candidates, c.key = e.1.map (·.canon) →
          c.value = e.2.map (·.canon)) := by
  rcases bind_ok_iff.mp h with ⟨⟨predId, keyPositions, valuePositions, conf⟩, hpred, h⟩
  rcases bind_ok_iff.mp h with ⟨candidates, hcandidates, h⟩
  rcases resolveCandidates_ok h with ⟨rfl, hperm, decisions, hmap, hkeys, hdecided⟩
  have hmem : ∀ {e}, e ∈ res.chosenMap ↔ ∃ d ∈ decisions, (d.keyTuple, d.chosenValueTuple) = e := by
    intro e
    rw [hmap, List.mem_map]
  have hids := hperm.map (·.asrtId)
  obtain ⟨hactive, hnodup⟩ := candidatesOf_ids hl.sound hcandidates
  refine ⟨hids.nodup_iff.mpr hnodup, hactive ▸ hids, ?_, ?_⟩
  · intro c hc
    have hkey : c.key ∈ Dict.keys (grouped candidates) :=
      Buckets.mem_keys_ofList.mpr ⟨c, hperm.mem_iff.mp hc, rfl⟩
    rw [← hkeys] at hkey
    rcases List.mem_map.mp hkey with ⟨d, hd, hdkey⟩
    refine ⟨_, ⟨hmem.mpr ⟨d, hd, rfl⟩, hdkey⟩, ?_⟩
    rintro e ⟨he, hek⟩
    rcases hmem.mp he with ⟨d', hd', rfl⟩
    have hnodup : (decisions.map (outcomeKey <| .inr ·)).Nodup :=
      hkeys ▸ Buckets.nodup_keys_ofList _ _ candidates
    rw [List.inj_on_of_nodup_map hnodup hd' hd (Eq.trans hek hdkey.symm)]
  · intro e he
    rcases hmem.mp he with ⟨d, hd, rfl⟩
    rcases decideKey_decision (hdecided d hd) with ⟨⟨c, hc, hvalue⟩, hagree⟩
    rcases mem_ofKey.mp hc with ⟨hcmem, hckey⟩
    refine ⟨⟨c, hperm.mem_iff.mpr hcmem, hckey, hvalue.symm⟩, ?_⟩
    intro hnull c' hc' hkey
    have hmode : conf.mode = "error" := by
      simp only [checkedPred, bind_ok_iff, hnull, normalizeTieBreak] at hpred
      rcases hpred with ⟨_, _, _, _, _, _, _, _, _, _, _, _, _, _, _, _, _, hconf, hpred⟩
      cases hconf
      simp only [Except.ok.injEq, Prod.mk.injEq] at hpred
      rw [← hpred.2.2.2]
    by_contra hne
    refine hagree hmode ⟨c', mem_ofKey.mpr ⟨hperm.mem_iff.mp hc', hkey⟩, c, hc, ?_⟩
    exact fun heq => hne (heq.trans (hvalue ▸ rfl))

/-- Two assertions of one age, of times of their own. -/
def datedAges : Batch where
  assertions := [("a1", 5), ("a2", 6)].map fun p => ⟨⟨p.1, "person:age", "e1", [("int", .leaf (.int 30))]⟩,
    [⟨p.1, 0, .int 30, "int"⟩], [⟨p.1, .plain "ingested_at", "time", .leaf (.int p.2)⟩], []⟩
  expectedHeadTxId := none
  headTxId := "t1"
  metadata := [("head_tx_seq", "1")]

/-- An age for each person. -/
def ageOf : MappingPred :=
  ⟨some "person:age", true, some "single_valued", some 2, some [some 0], some [some 1], .null⟩

/-- The one age of a person, asserted twice. -/
theorem resolveMappingPredicate_function_ages : ∃ res : MappingResolution,
    res.chosenMap = [([.str "e1"], [.int 30])] ∧ ∃ c ∈ res.candidates, c.valueTuple = [.int 30] := by
  obtain ⟨res, hres, hmap⟩ : ∃ res, resolveMappingPredicate ⟨fun _ => "", id⟩
      (mappingReads (Ledger.empty.commitBatch datedAges).1) ageOf = .ok res ∧
        res.chosenMap = [([.str "e1"], [.int 30])] := ⟨_, rfl, rfl⟩
  obtain ⟨-, -, -, hvalues⟩ := resolveMappingPredicate_function ⟨[], [.commit datedAges], rfl⟩ hres
  obtain ⟨c, hc, -, hvalue⟩ := (hvalues ([.str "e1"], [.int 30]) (by simp [hmap])).1
  exact ⟨res, hmap, c, hc, hvalue⟩

/-! ## Two assertions of one time -/

/-- Two assertions of one key that disagree on the value, ingested at the same time. -/
def tiedPair (firstId secondId : String) : List MappingCandidate :=
  [{ asrtId := firstId, keyTuple := [.str "k"], valueTuple := [.int 1], source := none,
     ingestedAt := 5 },
   { asrtId := secondId, keyTuple := [.str "k"], valueTuple := [.int 2], source := none,
     ingestedAt := 5 }]

/-- Ids that differ at a position are told apart, whichever comes first. -/
theorem tiedPair_resolves :
    ∃ res, resolveCandidates ⟨fun _ => "", id⟩ "p" { mode := latestMode }
        (tiedPair "ab" "b").reverse = .ok res ∧
      ∀ c ∈ tiedPair "ab" "b", Resolves (tiedPair "ab" "b") res c.key := by
  refine (resolveCandidates_picks_iff _ "p" rfl (by decide)).mpr ?_ _ (List.reverse_perm _)
  intro k c _ hc d hd _ hpre
  have hpair : ∀ c ∈ tiedPair "ab" "b", ∀ d ∈ tiedPair "ab" "b",
      c.asrtId.toList <+: d.asrtId.toList → d = c := by decide
  exact hpair c (mem_ofKey.mp hc.mem).1 d (mem_ofKey.mp hd).1 hpre

/-- Of the ids `a` and `ab` the second is picked. -/
theorem tiedPair_not_resolved :
    ¬ ∃ res, resolveCandidates ⟨fun _ => "", id⟩ "p" { mode := latestMode } (tiedPair "a" "ab") =
        .ok res ∧ ∀ c ∈ tiedPair "a" "ab", Resolves (tiedPair "a" "ab") res c.key := by
  intro h
  rcases h with ⟨res, hres, hall⟩
  rcases hall _ List.mem_cons_self with ⟨w, hw, d, hd, _, _, _, hid⟩
  have hwa : w.asrtId = "a" := by
    have hle := hw.least _ (mem_ofKey.mpr ⟨List.mem_cons_self, rfl⟩)
    have hpair : ∀ w ∈ tiedPair "a" "ab", w.asrtId ≤ "a" → w.asrtId = "a" := by decide
    refine hpair w (mem_ofKey.mp hw.mem).1 (hle ?_)
    have htime : ∀ w ∈ tiedPair "a" "ab", (5 : Int) = w.ingestedAt := by decide
    exact htime w (mem_ofKey.mp hw.mem).1
  have hdecided : (resolveCandidates ⟨fun _ => "", id⟩ "p" { mode := latestMode }
      (tiedPair "a" "ab")).toOption.map (fun res => res.decisions.map (·.chosenAsrtId)) =
      some ["ab"] := by rfl
  rw [hres] at hdecided
  have hids : res.decisions.map (·.chosenAsrtId) = ["ab"] := Option.some.inj hdecided
  have hchosen : d.chosenAsrtId = "ab" := by
    apply List.mem_singleton.mp
    rw [← hids]
    exact List.mem_map.mpr ⟨d, hd, rfl⟩
  have hdis : Disagree (ofKey (tiedPair "a" "ab") [.str "k"]) :=
    ⟨_, mem_ofKey.mpr ⟨List.mem_cons_self, rfl⟩, _,
      mem_ofKey.mpr ⟨List.mem_cons_of_mem _ List.mem_cons_self, rfl⟩, by decide⟩
  rw [hid hdis, hwa] at hchosen
  exact absurd hchosen (by decide)

end FactGraph.Mapping
