import FactGraph.Store.Steps

/-!
# Runs of a ledger

`Ledger.Sound` is what holds of every ledger a run of public writes reaches: one step keeps it, so every
run does.
-/

namespace FactGraph.Store

open Protocol Check Session Indexes

/-! ## What holds of every reachable ledger -/

/-- What identifies a claim in memory with its row. -/
def Claim.signature (c : Claim) : String × String × String := (c.asrtId, c.predId, c.eRef)

def ClaimRow.signature (r : ClaimRow) : String × String × String := (r.asrtId, r.predId, r.eRef)

/-- Is this the row of a claim of the user? -/
def ClaimRow.isUser (r : ClaimRow) : Bool := !startsWith systemPrefix r.predId

/-- The invariant of a ledger. -/
structure Ledger.Sound (l : Ledger) : Prop where
  coherent : l.indexes.Coherent
  args : l.indexes.claimArgs = l.indexes.claims.flatMap argsOf
  claims : (l.indexes.claims.map Claim.signature).Sublist
    ((l.tables.claims.rows.filter ClaimRow.isUser).map ClaimRow.signature)
  revokes : (l.indexes.revokesData.map (·.revokerAsrtId)).Sublist
    ((l.tables.claims.rows.filter fun r => !r.isUser).map (·.asrtId))
  events : (l.indexes.claimMetaEvents.map MetaEvent.primaryKey).Sublist
    (l.tables.claimMeta.rows.map ClaimMetaRow.primaryKey)
  storable : ∀ c ∈ l.indexes.claims, c.Storable
  user : ∀ c ∈ l.indexes.claims, c.isUser = true
  revokers : ∀ r ∈ l.indexes.revokesData, r.revokerAsrtId ≠ ""
  targeted : l.indexes.Targeted
  placed : ∀ a n, Dict.get? l.indexes.claimTxRefs a = some n →
    a ∈ l.tables.claims.rows.map (·.asrtId)
  eager : l.indexes.Eager l.isLazy
  defaults : DefaultsKeyed l.indexes.txMetaDefaultsByTxSeq

theorem Ledger.sound_opened (lazyKeys : List String) : (Ledger.opened lazyKeys).Sound where
  coherent := coherent_empty
  args := rfl
  claims := List.Sublist.refl _
  revokes := List.Sublist.refl _
  events := List.Sublist.refl _
  storable := by simp [Ledger.opened]
  user := by simp [Ledger.opened]
  revokers := by simp [Ledger.opened]
  targeted := by simp [Ledger.opened, Indexes.Targeted]
  placed := by simp [Ledger.opened]
  eager := by simp [Ledger.opened, Indexes.Eager]
  defaults := by simp [Ledger.opened, DefaultsKeyed]

/-- The rows of claims, told apart by predicate, are those of the claims told apart so. -/
theorem rows_signature {n : Nat} {rows : List ClaimRow} {cs : List Claim}
    (h : List.Forall₂ (ClaimRow.Of n) rows cs) :
    (rows.filter ClaimRow.isUser).map ClaimRow.signature =
        (cs.filter Claim.isUser).map Claim.signature ∧
      (rows.filter fun r => !r.isUser).map (·.asrtId) =
        (cs.filter fun c => !c.isUser).map (·.asrtId) := by
  induction h with
  | nil => exact ⟨rfl, rfl⟩
  | @cons r c rows cs hrc _ ih =>
    have huser : r.isUser = c.isUser := by simp [ClaimRow.isUser, Claim.isUser, hrc.predId]
    have hsig : r.signature = c.signature := by
      simp [ClaimRow.signature, Claim.signature, hrc.asrtId, hrc.predId, hrc.eRef]
    cases hu : c.isUser with
    | true =>
      rw [hu] at huser
      simp [huser, hu, hsig, ih.1, ih.2]
    | false =>
      rw [hu] at huser
      simp [huser, hu, hrc.asrtId, ih.1, ih.2]

theorem rows_asrtId {n : Nat} {rows : List ClaimRow} {cs : List Claim}
    (h : List.Forall₂ (ClaimRow.Of n) rows cs) : rows.map (·.asrtId) = cs.map (·.asrtId) := by
  induction h with
  | nil => rfl
  | cons hrc _ ih => rw [List.map_cons, List.map_cons, ih, hrc.asrtId]

/-- **One step keeps the invariant.** -/
theorem Ledger.Sound.step {l l' : Ledger} (h : l.Sound) (hs : l.Step l') : l'.Sound := by
  cases hs with
  | refused => exact h
  | defaults hds => exact { h with coherent := { h.coherent with }, defaults := hds }
  | ledgerMeta kvs => exact { h with }
  | @wrote n t hook cs d hw ht =>
    obtain ⟨ms, hgrown, hmatch⟩ := hw.tables
    obtain ⟨d', hpart, hlists, _⟩ := hw.adds l.indexes
    obtain ⟨rows, hrows, hof⟩ := hgrown.claims
    obtain ⟨husers, hsystem⟩ := rows_signature hof
    -- a new claim of the index is a claim of the user that was written
    have hnew : ∀ c ∈ d'.claims, c ∈ cs ∧ c.isUser = true := by
      intro c hc
      have hmem : c ∈ d.claims := hpart.claims.subset hc
      rw [hmatch.claims] at hmem
      exact List.mem_filter.mp hmem
    refine ⟨hw.coherent _ h.coherent, ?_, ?_, ?_, ?_, ?_, ?_, ?_, ht h.coherent h.targeted, ?_, ?_, ?_⟩
    · rw [hlists.args, hlists.claims, h.args, List.flatMap_append]
    · rw [hlists.claims, hrows, List.map_append, List.filter_append, List.map_append, husers]
      refine h.claims.append ?_
      rw [← hmatch.claims]
      exact hpart.claims.map _
    · rw [hlists.revokes, hrows, List.map_append, List.filter_append, List.map_append, hsystem]
      refine h.revokes.append ?_
      rw [← hmatch.revokes]
      exact hpart.revokes.map _
    · rw [hlists.events, hgrown.claimMeta, List.map_append, List.map_append]
      exact h.events.append ((hpart.events.map _).trans hmatch.events)
    · intro c hc
      rw [hlists.claims] at hc
      rcases List.mem_append.mp hc with hc | hc
      · exact h.storable c hc
      · exact hgrown.storable c (hnew c hc).1
    · intro c hc
      rw [hlists.claims] at hc
      rcases List.mem_append.mp hc with hc | hc
      · exact h.user c hc
      · exact (hnew c hc).2
    · intro r hr
      rw [hlists.revokes] at hr
      rcases List.mem_append.mp hr with hr | hr
      · exact h.revokers r hr
      · have hmem : r.revokerAsrtId ∈ d.revokes.map (·.revokerAsrtId) :=
          List.mem_map_of_mem (hpart.revokes.subset hr)
        rw [hmatch.revokes] at hmem
        obtain ⟨c, hc, hid⟩ := List.mem_map.mp hmem
        rw [← hid]
        exact (hgrown.storable c (List.mem_of_mem_filter hc)).asrtId_ne_empty
    · intro a k ha
      have hplaced : Placed n (fun a => a ∈ cs.map (·.asrtId)) l.indexes (hook l.indexes).1 :=
        hw.keeps _ _ (stable_placed l.isLazy n _ l.indexes)
          (fun c hc => List.mem_map_of_mem hc) _ (Placed.refl n _ l.indexes)
      have hids : rows.map (·.asrtId) = cs.map (·.asrtId) := rows_asrtId hof
      rw [hrows, List.map_append, List.mem_append]
      rcases hplaced.txRefs a with hsame | ⟨hnew, _⟩
      · rw [hsame] at ha
        exact .inl (h.placed a k ha)
      · exact .inr (hids ▸ hnew)
    · exact hw.keeps (fun _ => True) _ (stable_eager l.isLazy n _) (fun _ _ => trivial) _ h.eager
    · rw [hlists.defaults]
      exact h.defaults

/-- **Every reachable ledger is sound.** -/
theorem Ledger.Reachable.sound {l : Ledger} (h : l.Reachable) : l.Sound := by
  obtain ⟨lazyKeys, ws, rfl⟩ := h
  suffices hrun : ∀ (ws : List Write) (l : Ledger), l.Sound → (ws.foldl Write.run l).Sound from
    hrun ws _ (Ledger.sound_opened lazyKeys)
  intro ws
  induction ws with
  | nil => exact fun l hl => hl
  | cons w ws ih => exact fun l hl => ih _ (hl.step (w.step l))

/-! ## Reads of a sound ledger -/

namespace Ledger.Sound

variable {l : Ledger}

theorem findClaims (hl : l.Sound) (predId : String) :
    l.findClaims (some predId) none = l.indexes.claims.filter fun c => c.predId = predId := by
  have h := hl.coherent.byPredId predId
  rw [List.map_id] at h
  exact h

theorem hasActiveRevocation_iff (hl : l.Sound) {a : String} :
    l.hasActiveRevocation a = true ↔ ∃ r ∈ l.indexes.revokesData, r.revokedAsrtId = a := by
  unfold Ledger.hasActiveRevocation
  rw [decide_eq_true_eq]
  exact hl.coherent.revoked a

theorem has_claim_iff (hl : l.Sound) {a : String} :
    Dict.has l.indexes.claimByAsrtId a = true ↔ ∃ c ∈ l.indexes.claims, c.asrtId = a := by
  unfold Dict.has
  rw [hl.coherent.byId, List.getLast?_isSome]
  constructor
  · intro h
    obtain ⟨c, hc⟩ := List.exists_mem_of_ne_nil _ h
    obtain ⟨hmem, hid⟩ := List.mem_filter.mp hc
    exact ⟨c, hmem, by simpa using hid⟩
  · rintro ⟨c, hc, hid⟩ hnil
    have hmem : c ∈ l.indexes.claims.filter fun c => c.asrtId = a := by simp [hc, hid]
    rw [hnil] at hmem
    cases hmem

end Ledger.Sound

theorem argsOf_asrtId {c : Claim} {row : ClaimArg} (h : row ∈ argsOf c) : row.asrtId = c.asrtId := by
  unfold argsOf Indexes.argRows at h
  cases hc : claimArgsFromRestTerms c.restTerms with
  | error e => simp [hc] at h
  | ok rows =>
    simp only [hc, List.mem_map] at h
    obtain ⟨r, _, rfl⟩ := h
    rfl

theorem filter_argsOf (cs : List Claim) (a : String) :
    (cs.flatMap argsOf).filter (fun row => row.asrtId = a) =
      (cs.filter fun c => c.asrtId = a).flatMap argsOf := by
  induction cs with
  | nil => rfl
  | cons c cs ih =>
    rw [List.flatMap_cons, List.filter_append, ih]
    by_cases hc : c.asrtId = a
    · have hall : (argsOf c).filter (fun row => row.asrtId = a) = argsOf c := by
        apply List.filter_eq_self.mpr
        intro row hrow
        simp [argsOf_asrtId hrow, hc]
      simp [hc, hall]
    · have hnone : (argsOf c).filter (fun row => row.asrtId = a) = [] := by
        apply List.filter_eq_nil_iff.mpr
        intro row hrow
        simp [argsOf_asrtId hrow, hc]
      simp [hc, hnone]

namespace Ledger.Sound

variable {l : Ledger}

/-- The arguments of an id are those of its claims. -/
theorem findClaimArgs (hl : l.Sound) (a : String) :
    l.findClaimArgs a = (l.indexes.claims.filter fun c => c.asrtId = a).flatMap argsOf := by
  unfold Ledger.findClaimArgs
  rw [hl.coherent.argsById, hl.args, List.map_id, filter_argsOf]

theorem findClaimArgs_asrtId (hl : l.Sound) {a : String} {row : ClaimArg}
    (h : row ∈ l.findClaimArgs a) : row.asrtId = a := by
  rw [hl.findClaimArgs] at h
  obtain ⟨c, hc, hrow⟩ := List.mem_flatMap.mp h
  rw [argsOf_asrtId hrow]
  simpa using (List.mem_filter.mp hc).2

end Ledger.Sound

theorem Ledger.Reachable.run {l : Ledger} (h : l.Reachable) (w : Write) : (w.run l).Reachable := by
  obtain ⟨lazyKeys, ws, rfl⟩ := h
  exact ⟨lazyKeys, ws ++ [w], by simp⟩

end FactGraph.Store
