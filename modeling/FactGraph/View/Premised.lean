import FactGraph.Store.Replay
import FactGraph.View.Witness

/-!
# Reads that agree up to the numbers

Two records of reads that list the same claims, arguments and revocations, and that both number the
active claims of a predicate in the order they list them, lead to the same views: the numbers
themselves only decide which claim of a group is the last. Every function of the projector is
followed through once.
-/

namespace FactGraph.View

open Protocol Store Check Latest

/-- The same answers, but for the insertion sequences; these grow along the active claims in both. -/
structure LedgerReads.Alike (r r' : LedgerReads) : Prop where
  findClaims : r.findClaims = r'.findClaims
  hasActiveRevocation : r.hasActiveRevocation = r'.hasActiveRevocation
  findClaimArgs : r.findClaimArgs = r'.findClaimArgs
  sequenced : ∀ p active, activeClaims r p = .ok active → r.Sequenced active ∧ r'.Sequenced active

variable {r r' : LedgerReads}

namespace LedgerReads.Alike

theorem activeClaims (h : r.Alike r') (predId : String) :
    activeClaims r predId = activeClaims r' predId := by
  unfold View.activeClaims isActive
  rw [h.findClaims, h.hasActiveRevocation]

theorem groupKeyForClaim (h : r.Alike r') : groupKeyForClaim r = groupKeyForClaim r' := by
  funext pred c
  unfold View.groupKeyForClaim valAtomsForClaim
  rw [h.findClaimArgs]

theorem buildArgsForClaim (h : r.Alike r') : buildArgsForClaim r = buildArgsForClaim r' := by
  funext c
  unfold View.buildArgsForClaim
  rw [h.findClaimArgs]

/-- Of one group, both choose the last. -/
theorem chooseOne {claims : List Claim} (hseq : r.Sequenced claims) (hseq' : r'.Sequenced claims)
    (hne : claims ≠ []) :
    chooseOne r (claims.map (·.asrtId)) = chooseOne r' (claims.map (·.asrtId)) := by
  cases hlast : claims.getLast? with
  | none =>
    rw [List.getLast?_eq_none_iff] at hlast
    exact absurd hlast hne
  | some c => rw [chooseOne_of_sequenced hseq hlast, chooseOne_of_sequenced hseq' hlast]

/-- **The same claims are chosen.** -/
theorem computeChosenForPredicate (h : r.Alike r') (pred : SchemaPred) :
    computeChosenForPredicate r pred = computeChosenForPredicate r' pred := by
  unfold View.computeChosenForPredicate
  cases pred.predId with
  | none => rfl
  | some predId =>
    simp only [h.groupKeyForClaim, ← h.activeClaims predId]
    cases hactive : View.activeClaims r predId with
    | error e => rfl
    | ok active =>
      obtain ⟨hseq, hseq'⟩ := h.sequenced predId active hactive
      simp only [ok_bind]
      cases hkeyed : mapOk (fun c => (View.groupKeyForClaim r' pred c).map fun k => (k, c.asrtId))
        active with
      | error e => rfl
      | ok keyed =>
        -- the keys are a function of the claims, so the groups are groups of claims
        obtain ⟨key, _, rfl⟩ := keyed_of_mapOk hkeyed
        have hgroups : mapOk (fun g => View.chooseOne r g.2)
            (groupsOf (active.map fun c => (key c, c.asrtId))) =
            mapOk (fun g => View.chooseOne r' g.2)
              (groupsOf (active.map fun c => (key c, c.asrtId))) := by
          apply mapOk_congr
          intro g hg
          obtain ⟨hids, hsome⟩ := mem_groupsOf.mp hg
          rw [hids]
          have hsub := group_sublist key active g.1
          exact LedgerReads.Alike.chooseOne (hseq.sub hsub) (hseq'.sub hsub)
            (group_ne_nil_iff.mpr hsome)
        simp only [ok_bind, hgroups]

theorem selectActive (h : r.Alike r') : selectActive r = selectActive r' := by
  funext pred predId
  unfold View.selectActive
  rw [h.activeClaims, h.computeChosenForPredicate]

theorem selectViewClaims (h : r.Alike r') : selectViewClaims r = selectViewClaims r' := by
  funext pred
  unfold View.selectViewClaims
  rw [h.selectActive]

/-- **The same existence rows.** -/
theorem virtualEntityExistsRows (h : r.Alike r') (host : Host) :
    virtualEntityExistsRows host r = virtualEntityExistsRows host r' := by
  funext schema
  unfold View.virtualEntityExistsRows entityRows selectIdentityField
  rw [h.selectViewClaims, h.buildArgsForClaim]

/-- **The same rows.** -/
theorem projectViewFacts (h : r.Alike r') (host : Host) :
    projectViewFacts host r = projectViewFacts host r' := by
  funext schema
  unfold View.projectViewFacts projectPredicate
  rw [h.virtualEntityExistsRows, h.selectActive, h.buildArgsForClaim]

theorem projectViewFactsWithWitness (h : r.Alike r') (host : Host) :
    projectViewFactsWithWitness host r = projectViewFactsWithWitness host r' := by
  funext schema
  unfold View.projectViewFactsWithWitness projectEntityDomainsWithWitness
    projectPredicateWithWitness projectedClaim
  rw [h.virtualEntityExistsRows, h.selectViewClaims, h.buildArgsForClaim]

end LedgerReads.Alike

/-!
## Premise filters

`core/store/premise_filter.py`: which assertions an evaluation may use as premises. A filter hides
assertions by the value their metadata currently carries under a key, and `premiseScopedLedger` is the
ledger an evaluation reads through it. Every read decides visibility on its own, from the base
ledger.

A configuration is a structure that carries what its constructor checks. A key is a `MetaKey`, as
everywhere: the text it is compared by.
-/

/-! ## Configuration -/

/-- `MetaExclusion`. -/
structure MetaExclusion where
  key : MetaKey
  values : List String
  key_ne_empty : key.text ≠ ""
  values_ne_nil : values ≠ []
  values_ne_empty : ∀ v ∈ values, v ≠ ""

/-- `PredicatePremiseAllowance`. -/
structure PredicatePremiseAllowance where
  predId : String
  key : MetaKey
  allowedValues : List String
  absentOk : Bool := false
  predId_ne_empty : predId ≠ ""
  key_ne_empty : key.text ≠ ""
  values_ne_nil : allowedValues ≠ []
  values_ne_empty : ∀ v ∈ allowedValues, v ≠ ""

/-- `PredicatePremiseBlock`. -/
structure PredicatePremiseBlock where
  predId : String
  key : MetaKey
  blockedValues : List String
  predId_ne_empty : predId ≠ ""
  key_ne_empty : key.text ≠ ""
  values_ne_nil : blockedValues ≠ []
  values_ne_empty : ∀ v ∈ blockedValues, v ≠ ""

/-- The three dimensions, normalized: no predicate has two allowances or two blocks. -/
structure PremiseFilter where
  exclusions : List MetaExclusion := []
  allowances : List PredicatePremiseAllowance := []
  blocks : List PredicatePremiseBlock := []
  allowances_nodup : (allowances.map (·.predId)).Nodup
  blocks_nodup : (blocks.map (·.predId)).Nodup

/-! ## Visibility -/

/-- `isinstance(value, str) and value in values`. -/
def isStringIn (values : List String) : Datum → Bool
  | .leaf (.str s) => s ∈ values
  | _ => false

/-- `ledger.effective_meta_rows(asrt_id=asrt_id, key=key)[-1].value`, if there is a row. -/
def currentValue (l : Ledger) (asrtId : String) (key : MetaKey) : Except StoreErr (Option Datum) :=
  (l.effectiveMetaRows (some asrtId) (some key) none none).map fun rows =>
    rows.getLast?.map (·.value)

/-- `is_premise_excluded`. -/
def isPremiseExcluded (l : Ledger) (asrtId : String) : List MetaExclusion → Except StoreErr Bool
  | [] => .ok false
  | exclusion :: rest => do
      let value ← currentValue l asrtId exclusion.key
      if value.any (isStringIn exclusion.values) then .ok true
      else isPremiseExcluded l asrtId rest

/-- `is_predicate_premise_excluded`. -/
def isPredicatePremiseExcluded (l : Ledger) (asrtId : String)
    (allowances : List PredicatePremiseAllowance) : Except StoreErr Bool :=
  match l.getClaim asrtId with
  | none => .ok false
  | some claim =>
      match allowances.find? (·.predId = claim.predId) with
      | none => .ok false
      | some allowance => do
          let value ← currentValue l asrtId allowance.key
          match value with
          | none => .ok !allowance.absentOk
          | some v => .ok !isStringIn allowance.allowedValues v

/-- `is_predicate_premise_blocked`. -/
def isPredicatePremiseBlocked (l : Ledger) (asrtId : String)
    (blocks : List PredicatePremiseBlock) : Except StoreErr Bool :=
  match l.getClaim asrtId with
  | none => .ok false
  | some claim =>
      match blocks.find? (·.predId = claim.predId) with
      | none => .ok false
      | some block => do
          let value ← currentValue l asrtId block.key
          match value with
          | none => .ok false
          | some v => .ok (isStringIn block.blockedValues v)

/-- `_is_visible`. -/
def isVisible (l : Ledger) (f : PremiseFilter) (asrtId : String) : Except StoreErr Bool := do
  let excluded ← isPremiseExcluded l asrtId f.exclusions
  if excluded then .ok false
  else do
    let disallowed ← isPredicatePremiseExcluded l asrtId f.allowances
    if disallowed then .ok false
    else do
      let blocked ← isPredicatePremiseBlocked l asrtId f.blocks
      .ok !blocked

/-! ## The filtered ledger -/

/-- The loop at the end of `find_revoker`. -/
def firstVisibleRevoker (l : Ledger) (f : PremiseFilter) (revokedAsrtId : String) :
    List Revokes → Except StoreErr (Option String)
  | [] => .ok none
  | row :: rows =>
      if row.revokedAsrtId = revokedAsrtId then do
        let visible ← isVisible l f row.revokerAsrtId
        if visible then .ok (some row.revokerAsrtId)
        else firstVisibleRevoker l f revokedAsrtId rows
      else firstVisibleRevoker l f revokedAsrtId rows

/-- `_PremiseExcludedLedger.find_revoker`. -/
def findVisibleRevoker (l : Ledger) (f : PremiseFilter) (revokedAsrtId : String) :
    Except StoreErr (Option String) := do
  let visible ← isVisible l f revokedAsrtId
  if visible then
    match l.findRevoker revokedAsrtId with
    | none => .ok none
    | some first => do
        let admitted ← isVisible l f first
        if admitted then .ok (some first)
        else firstVisibleRevoker l f revokedAsrtId l.indexes.revokesData
  else .ok none

/-- `_PremiseExcludedLedger.has_active_revocation`. -/
def hasVisibleRevocation (l : Ledger) (f : PremiseFilter) (revokedAsrtId : String) :
    Except StoreErr Bool := do
  let visible ← isVisible l f revokedAsrtId
  if visible then
    match l.findRevoker revokedAsrtId with
    | none => .ok false
    | some first => do
        let admitted ← isVisible l f first
        if admitted then .ok true
        else (findVisibleRevoker l f revokedAsrtId).map Option.isSome
  else .ok false

/-- `_PremiseExcludedLedger.claim_sequence`. -/
def visibleSequence (l : Ledger) (f : PremiseFilter) (asrtId : String) :
    Except StoreErr (Option Nat) := do
  let visible ← isVisible l f asrtId
  if visible then l.claimSequence asrtId else .ok none

/-- `_PremiseExcludedLedger.find_claims`. -/
def visibleClaims (l : Ledger) (f : PremiseFilter) (predId : String) :
    Except StoreErr (List Claim) :=
  filterOk (fun c => isVisible l f c.asrtId) (l.findClaims (some predId) none)

/-- `_PremiseExcludedLedger.find_claim_args`. -/
def visibleClaimArgs (l : Ledger) (f : PremiseFilter) (asrtId : String) :
    Except StoreErr (List ClaimArg) := do
  let visible ← isVisible l f asrtId
  if visible then filterOk (fun row => isVisible l f row.asrtId) (l.findClaimArgs asrtId)
  else .ok []

/-- `premise_scoped_ledger`, as the reads of the ledger it returns. -/
def premiseScopedLedger (l : Ledger) (f : PremiseFilter) : LedgerReads :=
  if f.exclusions.isEmpty && f.allowances.isEmpty && f.blocks.isEmpty then reads l
  else
    { findClaims := visibleClaims l f
      hasActiveRevocation := hasVisibleRevocation l f
      claimSequence := visibleSequence l f
      findClaimArgs := visibleClaimArgs l f }

/-!
## A premise filter is a ledger without the hidden writes

Each read of the filtered ledger decides on its own what is visible. Together they answer as one
ledger does: the ledger in which the hidden assertions and the hidden revocations were never written
(`premiseScopedLedger_eq`, `readsWithout_alike`). So every view of it is a view of that ledger.
-/

variable {l l' : Ledger} {f : PremiseFilter} {visible : String → Bool}

/-! ## Visibility -/

/-- What the filter decides for every id. -/
def Sees (l : Ledger) (f : PremiseFilter) (visible : String → Bool) : Prop :=
  ∀ a, isVisible l f a = .ok (visible a)

/-- Without lazily loaded keys the current value of a key can always be read. -/
theorem currentValue_ok (h : l.lazyMetaKeys = []) (a : String) (k : MetaKey) :
    ∃ v, currentValue l a k = .ok v := by
  have hlazy : l.lazyMetaEvents (some a) (some k) = .ok [] := by
    simp [Ledger.lazyMetaEvents, Ledger.lazyRows, Ledger.isLazy, h, mapOk]
  unfold currentValue Ledger.effectiveMetaRows Ledger.effectiveMetaEvents Ledger.metaHistoryEvents
  rw [hlazy]
  exact ⟨_, rfl⟩

theorem isPremiseExcluded_ok (h : l.lazyMetaKeys = []) (a : String) (es : List MetaExclusion) :
    ∃ b, isPremiseExcluded l a es = .ok b := by
  induction es with
  | nil => exact ⟨false, rfl⟩
  | cons e es ih =>
    obtain ⟨v, hv⟩ := currentValue_ok h a e.key
    unfold isPremiseExcluded
    rw [hv]
    simp only [ok_bind]
    split
    · exact ⟨true, rfl⟩
    · exact ih

theorem isPredicatePremiseExcluded_ok (h : l.lazyMetaKeys = []) (a : String)
    (as : List PredicatePremiseAllowance) : ∃ b, isPredicatePremiseExcluded l a as = .ok b := by
  unfold isPredicatePremiseExcluded
  cases l.getClaim a with
  | none => exact ⟨_, rfl⟩
  | some c =>
    simp only
    cases as.find? (·.predId = c.predId) with
    | none => exact ⟨_, rfl⟩
    | some allowance =>
      obtain ⟨v, hv⟩ := currentValue_ok h a allowance.key
      simp only [hv, ok_bind]
      cases v <;> exact ⟨_, rfl⟩

theorem isPredicatePremiseBlocked_ok (h : l.lazyMetaKeys = []) (a : String)
    (bs : List PredicatePremiseBlock) : ∃ b, isPredicatePremiseBlocked l a bs = .ok b := by
  unfold isPredicatePremiseBlocked
  cases l.getClaim a with
  | none => exact ⟨_, rfl⟩
  | some c =>
    simp only
    cases bs.find? (·.predId = c.predId) with
    | none => exact ⟨_, rfl⟩
    | some block =>
      obtain ⟨v, hv⟩ := currentValue_ok h a block.key
      simp only [hv, ok_bind]
      cases v <;> exact ⟨_, rfl⟩

/-- **Visibility is decided for every id**, if no key is loaded lazily. -/
theorem exists_sees (h : l.lazyMetaKeys = []) (f : PremiseFilter) : ∃ visible, Sees l f visible := by
  have hall : ∀ a, ∃ b, isVisible l f a = .ok b := by
    intro a
    obtain ⟨excluded, he⟩ := isPremiseExcluded_ok h a f.exclusions
    obtain ⟨disallowed, hd⟩ := isPredicatePremiseExcluded_ok h a f.allowances
    obtain ⟨blocked, hb⟩ := isPredicatePremiseBlocked_ok h a f.blocks
    unfold isVisible
    rw [he, hd, hb]
    cases excluded <;> cases disallowed <;> exact ⟨_, rfl⟩
  choose visible hvisible using hall
  exact ⟨visible, hvisible⟩

/-! ## The reads of the filtered ledger -/

/-- A ledger, read without the hidden assertions and revocations. -/
def readsWithout (l : Ledger) (visible : String → Bool) : LedgerReads where
  findClaims p := .ok ((l.findClaims (some p) none).filter fun c => visible c.asrtId)
  hasActiveRevocation a := .ok (visible a && l.indexes.revokesData.any fun r =>
    r.revokedAsrtId = a && visible r.revokerAsrtId)
  claimSequence a := if visible a then l.claimSequence a else .ok none
  findClaimArgs a := .ok (if visible a then l.findClaimArgs a else [])

theorem visibleClaims_eq (h : Sees l f visible) (p : String) :
    visibleClaims l f p = .ok ((l.findClaims (some p) none).filter fun c => visible c.asrtId) :=
  filterOk_of_total fun c _ => h c.asrtId

theorem visibleSequence_eq (h : Sees l f visible) (a : String) :
    visibleSequence l f a = if visible a then l.claimSequence a else .ok none := by
  unfold visibleSequence
  rw [h a]
  rfl

theorem visibleClaimArgs_eq (hl : l.Sound) (h : Sees l f visible) (a : String) :
    visibleClaimArgs l f a = .ok (if visible a then l.findClaimArgs a else []) := by
  unfold visibleClaimArgs
  rw [h a]
  simp only [ok_bind]
  split
  case isFalse => rfl
  case isTrue hvisible =>
    rw [filterOk_of_total fun row _ => h row.asrtId]
    congr 1
    apply List.filter_eq_self.mpr
    intro row hrow
    rw [hl.findClaimArgs_asrtId hrow, hvisible]

/-- The scan of all revocations finds a visible revoker if there is one. -/
theorem firstVisibleRevoker_isSome (h : Sees l f visible) (a : String) (rows : List Revokes) :
    (firstVisibleRevoker l f a rows).map Option.isSome =
      .ok (rows.any fun r => r.revokedAsrtId = a && visible r.revokerAsrtId) := by
  induction rows with
  | nil => rfl
  | cons r rows ih =>
    unfold firstVisibleRevoker
    by_cases hr : r.revokedAsrtId = a
    · rw [if_pos hr, h]
      cases hv : visible r.revokerAsrtId with
      | true => simp [hr, hv, Except.map]
      | false => simpa [hr, hv] using ih
    · rw [if_neg hr]
      simpa [hr] using ih

theorem hasVisibleRevocation_eq (hl : l.Sound) (h : Sees l f visible) (a : String) :
    hasVisibleRevocation l f a = .ok (visible a && l.indexes.revokesData.any fun r =>
      r.revokedAsrtId = a && visible r.revokerAsrtId) := by
  have hfirst : l.findRevoker a =
      (l.indexes.revokesData.find? fun r => r.revokedAsrtId = a).map Revokes.revokerAsrtId :=
    hl.coherent.firstRevoker a
  unfold hasVisibleRevocation findVisibleRevoker
  rw [h a]
  simp only [ok_bind]
  cases visible a with
  | false => rfl
  | true =>
    rw [hfirst]
    cases hfind : l.indexes.revokesData.find? fun r => r.revokedAsrtId = a with
    | none =>
      have hnone : (l.indexes.revokesData.any fun r =>
          r.revokedAsrtId = a && visible r.revokerAsrtId) = false := by
        rw [List.any_eq_false]
        intro r hr
        have hne := List.find?_eq_none.mp hfind r hr
        simp only [decide_eq_true_eq] at hne
        simp [hne]
      simp [hnone]
    | some first =>
      have hmem := List.mem_of_find?_eq_some hfind
      have hrevoked : first.revokedAsrtId = a := by simpa using List.find?_some hfind
      simp only [Option.map_some, if_true, h first.revokerAsrtId, ok_bind]
      cases hv : visible first.revokerAsrtId with
      | true =>
        have hany : (l.indexes.revokesData.any fun r =>
            r.revokedAsrtId = a && visible r.revokerAsrtId) = true := by
          rw [List.any_eq_true]
          exact ⟨first, hmem, by simp [hrevoked, hv]⟩
        simp [hany]
      | false => simpa using firstVisibleRevoker_isSome h a l.indexes.revokesData

/-- **What the filtered ledger answers.** -/
theorem premiseScopedLedger_eq (hl : l.Sound) (h : Sees l f visible) :
    premiseScopedLedger l f = readsWithout l visible := by
  unfold premiseScopedLedger
  split
  case isFalse =>
    unfold readsWithout
    congr 1
    · funext p
      exact visibleClaims_eq h p
    · funext a
      exact hasVisibleRevocation_eq hl h a
    · funext a
      exact visibleSequence_eq h a
    · funext a
      exact visibleClaimArgs_eq hl h a
  case isTrue hnone =>
    -- nothing is configured: everything is visible
    simp only [Bool.and_eq_true, List.isEmpty_iff] at hnone
    obtain ⟨⟨hexclusions, hallowances⟩, hblocks⟩ := hnone
    have hall : ∀ a, visible a = true := by
      intro a
      have ha := h a
      unfold isVisible isPredicatePremiseExcluded isPredicatePremiseBlocked at ha
      rw [hexclusions, hallowances, hblocks] at ha
      simp only [isPremiseExcluded, ok_bind] at ha
      cases hc : l.getClaim a with
      | none =>
        rw [hc] at ha
        exact (Except.ok.inj ha).symm
      | some c =>
        rw [hc] at ha
        exact (Except.ok.inj ha).symm
    unfold reads readsWithout
    congr 1
    · funext p
      simp [hall]
    · funext a
      congr 1
      rw [Bool.eq_iff_iff, hl.hasActiveRevocation_iff]
      simp [hall]
    · funext a
      simp [hall]
    · funext a
      simp [hall]

/-! ## The ledger without the hidden writes -/

theorem findClaims_of_without (hl : l.Sound) (hl' : l'.Sound) (h : Without l l' visible)
    (p : String) : l'.findClaims (some p) none =
      (l.findClaims (some p) none).filter fun c => visible c.asrtId := by
  rw [hl.findClaims, hl'.findClaims, h.claims, List.filter_filter, List.filter_filter]
  apply List.filter_congr
  intro c _
  exact Bool.and_comm _ _

theorem findClaimArgs_of_without (hl : l.Sound) (hl' : l'.Sound) (h : Without l l' visible)
    (a : String) : l'.findClaimArgs a = if visible a then l.findClaimArgs a else [] := by
  rw [hl.findClaimArgs, hl'.findClaimArgs, h.claims, List.filter_filter]
  cases hv : visible a with
  | true =>
    have hfilter : (l.indexes.claims.filter fun c => decide (c.asrtId = a) && visible c.asrtId) =
        l.indexes.claims.filter fun c => c.asrtId = a := by
      apply List.filter_congr
      intro c _
      by_cases hc : c.asrtId = a <;> simp [hc, hv]
    simp [hfilter]
  | false =>
    have hfilter : (l.indexes.claims.filter fun c => decide (c.asrtId = a) && visible c.asrtId) =
        [] := by
      apply List.filter_eq_nil_iff.mpr
      intro c _
      by_cases hc : c.asrtId = a <;> simp [hc, hv]
    simp [hfilter]

theorem hasActiveRevocation_of_without (hl' : l'.Sound) (h : Without l l' visible) (a : String) :
    l'.hasActiveRevocation a = (visible a && l.indexes.revokesData.any fun r =>
      r.revokedAsrtId = a && visible r.revokerAsrtId) := by
  rw [Bool.eq_iff_iff, hl'.hasActiveRevocation_iff, h.revokes]
  simp only [decide_eq_true_eq, List.mem_filter, Bool.and_eq_true, List.any_eq_true]
  constructor
  · rintro ⟨r, ⟨hr, hrevoker, hrevoked⟩, rfl⟩
    exact ⟨hrevoked, r, hr, rfl, hrevoker⟩
  · rintro ⟨hv, r, hr, rfl, hrevoker⟩
    exact ⟨r, ⟨hr, hrevoker, hv⟩, rfl⟩

theorem activeClaims_sublist {r : LedgerReads} {p : String} {claims active : List Claim}
    (hclaims : r.findClaims p = .ok claims) (h : activeClaims r p = .ok active) :
    active.Sublist claims := by
  unfold activeClaims at h
  rw [hclaims] at h
  exact filterOk_sublist h

/-- **The filtered ledger answers as the ledger without the hidden writes does.** -/
theorem readsWithout_alike (hl : l.Sound) (hl' : l'.Sound) (h : Without l l' visible) :
    (readsWithout l visible).Alike (reads l') := by
  refine ⟨?_, ?_, ?_, ?_⟩
  · funext p
    exact congrArg Except.ok (findClaims_of_without hl hl' h p).symm
  · funext a
    exact congrArg Except.ok (hasActiveRevocation_of_without hl' h a).symm
  · funext a
    exact congrArg Except.ok (findClaimArgs_of_without hl hl' h a).symm
  · intro p active hactive
    have hsub : active.Sublist (l'.findClaims (some p) none) := by
      rw [findClaims_of_without hl hl' h]
      exact activeClaims_sublist rfl hactive
    have hsub' : active.Sublist l'.indexes.claims := by
      rw [hl'.findClaims] at hsub
      exact hsub.trans List.filter_sublist
    refine ⟨?_, (sequenced_of_sound hl').sub hsub'⟩
    -- a visible claim has the number it has in the base ledger
    rw [h.claims] at hsub'
    have hbase := (sequenced_of_sound hl).sub (hsub'.trans List.filter_sublist)
    have hsame : ∀ c ∈ active, (readsWithout l visible).claimSequence c.asrtId =
        (reads l).claimSequence c.asrtId := by
      intro c hc
      have hv : visible c.asrtId = true := (List.mem_filter.mp (hsub'.subset hc)).2
      simp [readsWithout, reads, hv]
    have hseq : ∀ c ∈ active, (readsWithout l visible).seq c = (reads l).seq c := by
      intro c hc
      unfold LedgerReads.seq
      rw [hsame c hc]
    refine ⟨?_, ?_⟩
    · intro c hc
      rw [hsame c hc, hseq c hc]
      exact hbase.sequence c hc
    · refine hbase.ascending.imp_of_mem ?_
      intro c d hc hd hlt
      rwa [hseq c hc, hseq d hd]

/-! ## Views -/

/-- The views of two records of reads are the same: rows, chosen claims, existence rows, witnesses. -/
structure SameViews (r r' : LedgerReads) : Prop where
  rows : ∀ host schema, projectViewFacts host r schema = projectViewFacts host r' schema
  chosen : ∀ pred, computeChosenForPredicate r pred = computeChosenForPredicate r' pred
  existsRows : ∀ host schema,
    virtualEntityExistsRows host r schema = virtualEntityExistsRows host r' schema
  witnesses : ∀ host schema,
    projectViewFactsWithWitness host r schema = projectViewFactsWithWitness host r' schema

theorem LedgerReads.Alike.sameViews {r r' : LedgerReads} (h : r.Alike r') : SameViews r r' where
  rows host schema := congrFun (h.projectViewFacts host) schema
  chosen pred := h.computeChosenForPredicate pred
  existsRows host schema := congrFun (h.virtualEntityExistsRows host) schema
  witnesses host schema := congrFun (h.projectViewFactsWithWitness host) schema

/-- **A view through a premise filter is a view of the ledger without the hidden writes.** There is
such a ledger, and every one of them has the same views. Only where a lazily loaded value of a
premise key cannot be read is there no answer to what is hidden. -/
theorem premiseScopedLedger_views {l : Ledger} (hl : l.Reachable) (f : PremiseFilter) :
    (l.lazyMetaKeys ≠ [] ∧ ∃ a e, isVisible l f a = .error e) ∨
      ∃ visible, Sees l f visible ∧ (∃ l', l'.Reachable ∧ Without l l' visible) ∧
        ∀ l', l'.Reachable → Without l l' visible →
          SameViews (premiseScopedLedger l f) (reads l') := by
  by_cases herror : ∃ a e, isVisible l f a = .error e
  · refine .inl ⟨?_, herror⟩
    intro hnil
    obtain ⟨visible, hv⟩ := exists_sees hnil f
    obtain ⟨a, e, he⟩ := herror
    rw [hv a] at he
    cases he
  · right
    have hall : ∀ a, ∃ b, isVisible l f a = .ok b := by
      intro a
      cases ha : isVisible l f a with
      | error e => exact absurd ⟨a, e, ha⟩ herror
      | ok b => exact ⟨b, rfl⟩
    choose visible hv using hall
    refine ⟨visible, hv, exists_without hl.sound visible, ?_⟩
    intro l' hl' hwithout
    rw [premiseScopedLedger_eq hl.sound hv]
    exact (readsWithout_alike hl.sound hl'.sound hwithout).sameViews

/-- A ledger in which the second of two ages was revoked, on unverified grounds. -/
def revokedAgeLedger : Ledger :=
  [Write.claim (ageClaim "a1" 30), Write.claim (ageClaim "a2" 31),
    Write.revocation
      { revokes := ⟨"r1", "a2"⟩
        metaRows := [⟨"r1", .plain "provenance_class", "str", .leaf (.str "unverified")⟩] }].foldl
    Write.run .empty

/-- Nothing unverified is a premise. -/
def verifiedOnly : PremiseFilter where
  exclusions := [⟨.plain "provenance_class", ["unverified"], by decide, by decide, by decide⟩]
  allowances_nodup := by decide
  blocks_nodup := by decide

/-- Hiding the revocation brings the second age back, which then displaces the first. -/
theorem premiseScopedLedger_views_revokedAge :
    projectViewFacts plainHost (reads revokedAgeLedger) ⟨some [some agePred], some []⟩ =
        .ok [("person:age", [[.str "e1", .int 30]])] ∧
      ∃ l', l'.Reachable ∧
        projectViewFacts plainHost (reads l') ⟨some [some agePred], some []⟩ =
          .ok [("person:age", [[.str "e1", .int 31]])] := by
  refine ⟨by rfl, ?_⟩
  have hviews : projectViewFacts plainHost (premiseScopedLedger revokedAgeLedger verifiedOnly)
      ⟨some [some agePred], some []⟩ = .ok [("person:age", [[.str "e1", .int 31]])] := by rfl
  rcases premiseScopedLedger_views (l := revokedAgeLedger) ⟨[], _, rfl⟩ verifiedOnly with
    ⟨hlazy, _⟩ | ⟨visible, _, ⟨l', hl', hwithout⟩, hsame⟩
  · exact absurd rfl hlazy
  · exact ⟨l', hl', ((hsame l' hl' hwithout).rows _ _).symm.trans hviews⟩

end FactGraph.View
