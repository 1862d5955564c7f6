import FactGraph.Store.Runs

/-!
# A ledger without some of its writes

`Without l l' keep` says that `l'` is `l` with the assertions and the revocations that `keep` drops never
written: a revocation is dropped with its revoker or with its target. Such a ledger is always
reachable (`exists_without`): the claims that stay can be appended again in their order, and the
revocations that stay after them.
-/

namespace FactGraph.Store

open Protocol Check Session Indexes

/-- The claims and the revocations that `keep` keeps, in their order. -/
structure Without (l l' : Ledger) (keep : String → Bool) : Prop where
  claims : l'.indexes.claims = l.indexes.claims.filter fun c => keep c.asrtId
  revokes : l'.indexes.revokesData = l.indexes.revokesData.filter fun r =>
    keep r.revokerAsrtId && keep r.revokedAsrtId

/-- The ids in the table `claims`. -/
def Ledger.writtenIds (l : Ledger) : List String := l.tables.claims.rows.map (·.asrtId)

/-! ## Appending again -/

/-- The rows of a table after one more. -/
theorem insert_of_fresh {t : Tables} {claim : Claim} (h : claim.Storable)
    (hfresh : claim.asrtId ∉ t.claims.rows.map (·.asrtId)) (txSeq : Nat) :
    ∃ t', t.insertClaim claim txSeq = .ok t' ∧
      t'.claims.rows.map (·.asrtId) = t.claims.rows.map (·.asrtId) ++ [claim.asrtId] := by
  obtain ⟨terms, hterms⟩ := h.encoded
  unfold Tables.insertClaim ClaimsTable.insertClaim ClaimsTable.insert
  rw [h.identity, h.terms, hterms]
  simp only [ok_bind]
  rw [dif_neg hfresh]
  exact ⟨_, rfl, by simp⟩

/-- `append_claim` of a claim with a fresh id appends it, even if its arguments cannot be read. -/
theorem run_claim {l : Ledger} {c : Claim} (h : c.Storable) (huser : c.isUser = true)
    (hfresh : c.asrtId ∉ l.writtenIds) :
    ((Write.claim c).run l).indexes.claims = l.indexes.claims ++ [c] ∧
      ((Write.claim c).run l).indexes.revokesData = l.indexes.revokesData ∧
      ((Write.claim c).run l).writtenIds = l.writtenIds ++ [c.asrtId] := by
  have hsystem : startsWith systemPrefix c.predId = false := by simpa [Claim.isUser] using huser
  have hvalid : validateIdentifiedClaim c = .ok () := by
    have hid := h.identity
    unfold validateClaimIdentity at hid
    obtain ⟨hasrt, hid⟩ := bind_unit_ok_iff.mp hid
    obtain ⟨hpred, href⟩ := bind_unit_ok_iff.mp hid
    unfold validateIdentifiedClaim validateClaimInput
    rw [hasrt, hpred, href, hsystem]
    rfl
  obtain ⟨t, ht, hids⟩ := insert_of_fresh h hfresh l.tables.nextDirectTxSeq
  have hbody : Ledger.claimBody c l.tables = .ok (t, (Hook.step fun m =>
      (m.setTxRef c.asrtId l.tables.nextDirectTxSeq).setOpOrdinal c.asrtId 0).andThen
        (idxAddClaim c)) := by
    unfold Ledger.claimBody
    simp only [ht, ok_bind]
  have hrun : (Write.claim c).run l = { l with
      tables := t
      indexes := (idxAddClaim c ((l.indexes.setTxRef c.asrtId
        l.tables.nextDirectTxSeq).setOpOrdinal c.asrtId 0)).1 } := by
    show (l.appendClaim c).1 = _
    unfold Ledger.appendClaim
    rw [hvalid, h.terms]
    simp only [Ledger.session]
    rw [Session.run_of_ok (s := (l.tables, l.indexes)) hbody]
    rfl
  have hgrown := grown_idxAddClaim hsystem
    ((l.indexes.setTxRef c.asrtId l.tables.nextDirectTxSeq).setOpOrdinal c.asrtId 0)
  rw [hrun]
  exact ⟨hgrown.claims, by simpa [setTxRef, setOpOrdinal] using hgrown.revokes, hids⟩

/-- The claim of a revocation of a claim. -/
theorem storable_revokeClaim {r : Revokes} {target : Claim} (hr : r.revokerAsrtId ≠ "")
    (ht : target.Storable) : (revokeClaim r target).Storable := by
  have hid := ht.identity
  unfold validateClaimIdentity at hid
  obtain ⟨_, hid⟩ := bind_unit_ok_iff.mp hid
  obtain ⟨_, href⟩ := bind_unit_ok_iff.mp hid
  refine ⟨?_, rfl, ⟨_, rfl⟩⟩
  unfold validateClaimIdentity revokeClaim
  rw [href, require_of_true (by simpa using hr)]
  rfl

/-- `append_revokes` with a fresh revoker and a known target appends the revocation. -/
theorem run_revokes {l : Ledger} (hl : l.Sound) {r : Revokes} (hr : r.revokerAsrtId ≠ "")
    (htarget : ∃ c ∈ l.indexes.claims, c.asrtId = r.revokedAsrtId)
    (hfresh : r.revokerAsrtId ∉ l.writtenIds) :
    ((Write.revokes r).run l).indexes.claims = l.indexes.claims ∧
      ((Write.revokes r).run l).indexes.revokesData = l.indexes.revokesData ++ [r] ∧
      ((Write.revokes r).run l).writtenIds = l.writtenIds ++ [r.revokerAsrtId] := by
  obtain ⟨c, hc, hid⟩ := htarget
  have hvalid : validateRevokesRow r = .ok () := by
    have hrevoked : r.revokedAsrtId ≠ "" := hid ▸ (hl.storable c hc).asrtId_ne_empty
    unfold validateRevokesRow
    exact require_of_true (by simpa using ⟨hr, hrevoked⟩)
  obtain ⟨target, hget⟩ : ∃ target, l.getClaim r.revokedAsrtId = some target := by
    unfold Ledger.getClaim
    rw [hl.coherent.byId]
    have hne : (l.indexes.claims.filter fun c => c.asrtId = r.revokedAsrtId) ≠ [] := by
      intro hnil
      have hmem : c ∈ l.indexes.claims.filter fun c => c.asrtId = r.revokedAsrtId := by
        simp [hc, hid]
      simp [hnil] at hmem
    exact ⟨_, List.getLast?_eq_some_getLast hne⟩
  have hstorable : (revokeClaim r target).Storable :=
    storable_revokeClaim hr (hl.storable target (hl.coherent.mem_of_get? hget).1)
  obtain ⟨t, ht, hids⟩ := insert_of_fresh hstorable hfresh l.tables.nextDirectTxSeq
  have hbody : l.revokesBody r l.tables = .ok (t,
      (idxAddSystemRevocationClaim (revokeClaim r target)
        (some l.tables.nextDirectTxSeq)).andThen (.step fun m =>
          (m.setOpOrdinal (revokeClaim r target).asrtId 0).idxAddRevoke r)) := by
    unfold Ledger.revokesBody
    simp only [hget, ht, ok_bind]
  have hrun : (Write.revokes r).run l = { l with
      tables := t
      indexes := (((l.indexes.addSystemClaim (revokeClaim r target)).setTxRef
        (revokeClaim r target).asrtId l.tables.nextDirectTxSeq).setOpOrdinal
          (revokeClaim r target).asrtId 0).idxAddRevoke r } := by
    show (l.appendRevokes r).1 = _
    unfold Ledger.appendRevokes
    rw [hvalid]
    simp only [Ledger.session]
    rw [Session.run_of_ok (s := (l.tables, l.indexes)) hbody]
    rfl
  rw [hrun]
  exact ⟨rfl, rfl, hids⟩

/-! ## Replaying -/

theorem replay_claims :
    ∀ {cs : List Claim} {l : Ledger}, (∀ c ∈ cs, c.Storable ∧ c.isUser = true) →
      (l.writtenIds ++ cs.map (·.asrtId)).Nodup →
      ((cs.map Write.claim).foldl Write.run l).indexes.claims = l.indexes.claims ++ cs ∧
        ((cs.map Write.claim).foldl Write.run l).indexes.revokesData = l.indexes.revokesData ∧
        ((cs.map Write.claim).foldl Write.run l).writtenIds =
          l.writtenIds ++ cs.map (·.asrtId) := by
  intro cs
  induction cs with
  | nil => simp
  | cons c cs ih =>
    intro l hcs hnodup
    obtain ⟨hstorable, huser⟩ := hcs c List.mem_cons_self
    have hfresh : c.asrtId ∉ l.writtenIds := by
      intro hmem
      exact (List.nodup_append.mp hnodup).2.2 _ hmem _ (by simp) rfl
    obtain ⟨hclaims, hrevokes, hids⟩ := run_claim hstorable huser hfresh
    have hrest := ih (l := (Write.claim c).run l)
      (fun d hd => hcs d (List.mem_cons_of_mem c hd)) (by simpa [hids] using hnodup)
    rw [hclaims, hrevokes, hids] at hrest
    simpa using hrest

theorem replay_revokes :
    ∀ {rs : List Revokes} {l : Ledger}, l.Sound →
      (∀ r ∈ rs, r.revokerAsrtId ≠ "" ∧ ∃ c ∈ l.indexes.claims, c.asrtId = r.revokedAsrtId) →
      (l.writtenIds ++ rs.map (·.revokerAsrtId)).Nodup →
      ((rs.map Write.revokes).foldl Write.run l).indexes.claims = l.indexes.claims ∧
        ((rs.map Write.revokes).foldl Write.run l).indexes.revokesData =
          l.indexes.revokesData ++ rs := by
  intro rs
  induction rs with
  | nil => simp
  | cons r rs ih =>
    intro l hl hrs hnodup
    obtain ⟨hr, htarget⟩ := hrs r List.mem_cons_self
    have hfresh : r.revokerAsrtId ∉ l.writtenIds := by
      intro hmem
      exact (List.nodup_append.mp hnodup).2.2 _ hmem _ (by simp) rfl
    obtain ⟨hclaims, hrevokes, hids⟩ := run_revokes hl hr htarget hfresh
    have hrest := ih (l := (Write.revokes r).run l) (hl.step ((Write.revokes r).step l))
      (fun s hs => by rw [hclaims]; exact hrs s (List.mem_cons_of_mem r hs))
      (by simpa [hids] using hnodup)
    rw [hclaims, hrevokes] at hrest
    simpa using hrest

/-- The ids of the claims and of the revokers of a ledger are distinct. -/
theorem nodup_ids {l : Ledger} (hl : l.Sound) :
    (l.indexes.claims.map (·.asrtId) ++ l.indexes.revokesData.map (·.revokerAsrtId)).Nodup := by
  have hclaims : (l.indexes.claims.map (·.asrtId)).Sublist
      ((l.tables.claims.rows.filter ClaimRow.isUser).map (·.asrtId)) := by
    have h := hl.claims.map Prod.fst
    simpa [List.map_map, Function.comp_def, Claim.signature, ClaimRow.signature] using h
  have hperm : ((l.tables.claims.rows.filter ClaimRow.isUser).map (·.asrtId) ++
      (l.tables.claims.rows.filter fun r => !r.isUser).map (·.asrtId)).Perm
        (l.tables.claims.rows.map (·.asrtId)) := by
    rw [← List.map_append]
    exact (List.filter_append_perm _ _).map _
  exact (hclaims.append hl.revokes).nodup (hperm.nodup_iff.mpr l.tables.claims.unique)

/-- **The ledger in which the dropped writes never happened.** -/
theorem exists_without {l : Ledger} (hl : l.Sound) (keep : String → Bool) :
    ∃ l', l'.Reachable ∧ Without l l' keep := by
  let cs := l.indexes.claims.filter fun c => keep c.asrtId
  let rs := l.indexes.revokesData.filter fun r => keep r.revokerAsrtId && keep r.revokedAsrtId
  let l₁ := (cs.map Write.claim).foldl Write.run Ledger.empty
  let l₂ := (rs.map Write.revokes).foldl Write.run l₁
  have hids : (cs.map (·.asrtId) ++ rs.map (·.revokerAsrtId)).Nodup :=
    ((List.filter_sublist.map _).append (List.filter_sublist.map _)).nodup (nodup_ids hl)
  obtain ⟨hclaims, hrevokes, hwritten⟩ := replay_claims (l := Ledger.empty)
    (show ∀ c ∈ cs, c.Storable ∧ c.isUser = true from fun c hc =>
      ⟨hl.storable c (List.mem_of_mem_filter hc), hl.user c (List.mem_of_mem_filter hc)⟩)
    (List.nodup_append.mp hids).1
  have hreach₁ : l₁.Reachable := ⟨[], cs.map Write.claim, rfl⟩
  have htargets : ∀ r ∈ rs, r.revokerAsrtId ≠ "" ∧
      ∃ c ∈ l₁.indexes.claims, c.asrtId = r.revokedAsrtId := by
    intro r hr
    obtain ⟨hmem, hkeep⟩ := List.mem_filter.mp hr
    obtain ⟨c, hc, hid⟩ := hl.targeted r hmem
    have hkept : keep c.asrtId = true := by
      rw [hid]
      exact (Bool.and_eq_true_iff.mp hkeep).2
    refine ⟨hl.revokers r hmem, c, ?_, hid⟩
    rw [show l₁.indexes.claims = [] ++ cs from hclaims, List.nil_append]
    exact List.mem_filter.mpr ⟨hc, hkept⟩
  obtain ⟨hclaims₂, hrevokes₂⟩ := replay_revokes (l := l₁) hreach₁.sound htargets
    (by rw [show l₁.writtenIds = [] ++ cs.map (·.asrtId) from hwritten]; exact hids)
  refine ⟨l₂, ⟨[], cs.map Write.claim ++ rs.map Write.revokes, ?_⟩, ?_, ?_⟩
  · rw [List.foldl_append]
    rfl
  · exact hclaims₂.trans hclaims
  · rw [hrevokes₂, show l₁.indexes.revokesData = [] from hrevokes, List.nil_append]

end FactGraph.Store
