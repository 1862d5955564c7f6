import FactGraph.Derivation.Ordered

/-!
# Best-effort batches

In `best_effort` mode the loop goes on after a failure, and blocks what refers to a key that failed
or is blocked. Since a request comes after everything it depends on, a request is blocked exactly when
one it depends on failed or is blocked (`BatchInv`), and so exactly when some request it depends on
in any number of steps failed (`blocked_iff`). Nothing is assumed of what accepting a candidate does.
-/

namespace FactGraph.Derivation

open Check Relation

variable {σ : Type} {requests : List AcceptRequest}

/-- The request was tried and failed. -/
def AcceptItem.Failed (it : AcceptItem) : Prop :=
  it.state = .failedValidation ∨ it.state = .failedRuntime

/-- The key of the request is blocked. -/
def AcceptItem.Blocks (it : AcceptItem) : Prop := it.Failed ∨ it.state = .blockedDependency

/-! ## One request -/

/-- What one iteration leaves behind: an item, and the key of the item among the blocked ones if it
blocks. -/
structure Recorded (st st' : BatchState σ) (idx : Nat) (req : AcceptRequest) (it : AcceptItem) :
    Prop where
  results : st'.results = Dict.set st.results idx it
  key : it.candidateKey = req.key
  blocked : ∀ k, k ∈ st'.blockedKeys ↔ k ∈ st.blockedKeys ∨ it.Blocks ∧ k = req.key

theorem recorded_block (st : BatchState σ) (idx : Nat) (req : AcceptRequest) {it : AcceptItem}
    (hkey : it.candidateKey = req.key) (hit : it.Blocks) : Recorded st (st.block idx it) idx req it where
  results := rfl
  key := hkey
  blocked k := by
    show k ∈ it.candidateKey :: st.blockedKeys ↔ _
    rw [List.mem_cons, hkey, or_comm]
    simp [hit]

theorem recorded_record (st : BatchState σ) (idx : Nat) (req : AcceptRequest) {it : AcceptItem}
    (hkey : it.candidateKey = req.key) (hit : ¬ it.Blocks) :
    Recorded st (st.record idx it) idx req it where
  results := rfl
  key := hkey
  blocked k := by simp [BatchState.record, hit]

/-- Only the items and the blocked keys of the state before count. -/
theorem Recorded.congr {st₀ st st' : BatchState σ} {idx : Nat} {req : AcceptRequest}
    {it : AcceptItem} (h : Recorded st₀ st' idx req it) (hresults : st₀.results = st.results)
    (hblocked : st₀.blockedKeys = st.blockedKeys) : Recorded st st' idx req it where
  results := hresults ▸ h.results
  key := h.key
  blocked := hblocked ▸ h.blocked

/-- An answer is recorded, and never as a blocked dependency. -/
theorem settle_recorded (idempotentDuplicateOk : Bool) (idx : Nat) (req : AcceptRequest)
    (st : BatchState σ) (answer : AcceptAnswer) :
    ∃ it, Recorded st (settle idempotentDuplicateOk idx req st answer).1 idx req it ∧
      it.state ≠ .blockedDependency := by
  cases answer with
  | raised isWriteProtocolError code message =>
    refine ⟨_, recorded_block st idx req rfl ?_, ?_⟩
    · cases isWriteProtocolError
      · exact .inl (.inr rfl)
      · exact .inl (.inl rfl)
    · cases isWriteProtocolError <;> exact fun h => nomatch h
  | result entityRef writtenAsrtIds duplicates =>
    show ∃ it, Recorded st (if 0 < duplicates ∧ (!idempotentDuplicateOk) = true then _ else _ :
      BatchState σ × Bool).1 idx req it ∧ _
    by_cases hdup : 0 < duplicates ∧ (!idempotentDuplicateOk) = true
    · rw [if_pos hdup]
      refine ⟨_, (recorded_block (st.noteWritten idx writtenAsrtIds) idx req rfl
        (.inl (.inl rfl))).congr ?_ ?_, fun h => nomatch h⟩
      · exact st.noteWritten_results idx writtenAsrtIds
      · exact st.noteWritten_blockedKeys idx writtenAsrtIds
    · rw [if_neg hdup]
      have hfine : ¬ (acceptManyItem req.candidateSet
          (if 0 < duplicates then .duplicate else .accepted) entityRef none).Blocks := by
        have hstate : (acceptManyItem req.candidateSet
            (if 0 < duplicates then .duplicate else .accepted) entityRef none).state =
              if 0 < duplicates then ItemState.duplicate else .accepted := rfl
        unfold AcceptItem.Blocks AcceptItem.Failed
        rw [hstate]
        split <;> simp
      refine ⟨_, (recorded_record ((st.noteWritten idx writtenAsrtIds).noteEntityRef req.key
        entityRef) idx req rfl hfine).congr ?_ ?_, fun h => hfine (.inr h)⟩
      · rw [BatchState.noteEntityRef_results, st.noteWritten_results]
      · rw [BatchState.noteEntityRef_blockedKeys, st.noteWritten_blockedKeys]

/-- **One iteration of a best-effort batch.** -/
theorem processRequest_recorded (routines : Routines σ) (idempotentDuplicateOk : Bool)
    (inBatch : List String) (idx : Nat) (req : AcceptRequest) (st : BatchState σ) :
    ∃ it, Recorded st
        (processRequest routines .bestEffort idempotentDuplicateOk inBatch idx req st).1 idx req it ∧
      (it.state = .blockedDependency ↔
        ∃ dep ∈ req.deps, dep ∈ inBatch ∧ dep ∈ st.blockedKeys) := by
  have hany : (req.deps.filter (· ∈ inBatch)).any (· ∈ st.blockedKeys) = true ↔
      ∃ dep ∈ req.deps, dep ∈ inBatch ∧ dep ∈ st.blockedKeys := by
    simp only [List.any_eq_true, List.mem_filter, decide_eq_true_eq, and_assoc]
  unfold processRequest
  by_cases hblocked : ∃ dep ∈ req.deps, dep ∈ inBatch ∧ dep ∈ st.blockedKeys
  · simp only [true_and, hany.mpr hblocked, if_true]
    refine ⟨_, recorded_block st idx req rfl (.inr rfl), ?_⟩
    exact ⟨fun _ => hblocked, fun _ => rfl⟩
  · have hno : ¬ (req.deps.filter (· ∈ inBatch)).any (· ∈ st.blockedKeys) = true :=
      fun h => hblocked (hany.mp h)
    simp only [true_and, hno]
    rcases settle_recorded idempotentDuplicateOk idx req
      { st with ledger := (routines.acceptCandidateSet st.ledger req st.acceptedEntityRefs).1 }
      (routines.acceptCandidateSet st.ledger req st.acceptedEntityRefs).2 with ⟨it, hrec, hstate⟩
    refine ⟨it, ⟨hrec.results, hrec.key, hrec.blocked⟩, ?_⟩
    exact ⟨fun h => absurd h hstate, fun h => absurd h hblocked⟩

/-! ## The loop -/

/-- The item of a request of the batch. -/
def BatchState.item? (st : BatchState σ) (i : Nat) : Option AcceptItem := Dict.get? st.results i

/-- What holds once the requests of `done` are processed: each has its item, the keys of those that
block are blocked, and a request is blocked when one it depends on blocks. -/
structure BatchInv (requests : List AcceptRequest) (done : List Nat) (st : BatchState σ) : Prop where
  recorded : ∀ i, (∃ it, st.item? i = some it) ↔ i ∈ done
  keys : ∀ i it, st.item? i = some it → ∃ req, requests[i]? = some req ∧ it.candidateKey = req.key
  blocked : ∀ k, k ∈ st.blockedKeys ↔ ∃ i it, st.item? i = some it ∧ it.Blocks ∧ it.candidateKey = k
  state : ∀ i it, st.item? i = some it → (it.state = .blockedDependency ↔
    ∃ j jt, DependsOn requests i j ∧ st.item? j = some jt ∧ jt.Blocks)

/-- **One iteration keeps the invariant**, at a request whose dependencies are processed. -/
theorem BatchInv.step {done : List Nat} {st st' : BatchState σ} (h : BatchInv requests done st)
    (hclosed : ∀ i ∈ done, ∀ j, DependsOn requests i j → j ∈ done) {idx : Nat} {req : AcceptRequest}
    (hidx : idx ∉ done) (hreq : requests[idx]? = some req)
    (hdeps : ∀ j, DependsOn requests idx j → j ∈ done) {it : AcceptItem}
    (hrec : Recorded st st' idx req it)
    (hstate : it.state = .blockedDependency ↔
      ∃ dep ∈ req.deps, dep ∈ nodeKeys requests ∧ dep ∈ st.blockedKeys) :
    BatchInv requests (done ++ [idx]) st' := by
  have hself : st'.item? idx = some it := by
    unfold BatchState.item?
    rw [hrec.results, Dict.get?_set_self]
  have hother : ∀ {i}, i ≠ idx → st'.item? i = st.item? i := by
    intro i hne
    unfold BatchState.item?
    rw [hrec.results, Dict.get?_set_of_ne hne]
  have hnone : st.item? idx = none := by
    cases hitem : st.item? idx with
    | none => rfl
    | some it' => exact absurd ((h.recorded idx).mp ⟨it', hitem⟩) hidx
  have hne : ∀ {i}, i ∈ done → i ≠ idx := fun hi heq => hidx (heq ▸ hi)
  -- a processed request depends on processed requests, whose items stay
  have hsame : ∀ {i}, (∀ j, DependsOn requests i j → j ∈ done) →
      ((∃ j jt, DependsOn requests i j ∧ st'.item? j = some jt ∧ jt.Blocks) ↔
        ∃ j jt, DependsOn requests i j ∧ st.item? j = some jt ∧ jt.Blocks) := by
    intro i hi
    apply exists_congr
    intro j
    apply exists_congr
    intro jt
    apply and_congr_right
    intro hij
    rw [hother (hne (hi j hij))]
  refine ⟨?_, ?_, ?_, ?_⟩
  · intro i
    rw [List.mem_append, List.mem_singleton, ← h.recorded]
    by_cases hi : i = idx
    · subst hi
      simp [hself]
    · simp [hother hi, hi]
  · intro i it' hit'
    by_cases hi : i = idx
    · subst hi
      rw [hself] at hit'
      cases hit'
      exact ⟨req, hreq, hrec.key⟩
    · exact h.keys i it' (hother hi ▸ hit')
  · intro k
    rw [hrec.blocked, h.blocked]
    constructor
    · intro hk
      rcases hk with ⟨i, it', hit', hblocks, hkey⟩ | ⟨hblocks, rfl⟩
      · have hi : i ≠ idx := by
          intro heq
          rw [heq, hnone] at hit'
          cases hit'
        exact ⟨i, it', (hother hi).trans hit', hblocks, hkey⟩
      · exact ⟨idx, it, hself, hblocks, hrec.key⟩
    · intro hk
      rcases hk with ⟨i, it', hit', hblocks, hkey⟩
      by_cases hi : i = idx
      · subst hi
        rw [hself] at hit'
        cases hit'
        exact .inr ⟨hblocks, hkey.symm.trans hrec.key⟩
      · exact .inl ⟨i, it', hother hi ▸ hit', hblocks, hkey⟩
  · intro i it' hit'
    by_cases hi : i = idx
    · subst hi
      rw [hself] at hit'
      cases hit'
      rw [hsame hdeps, hstate]
      constructor
      · intro hdep
        rcases hdep with ⟨dep, hdep, _, hblocked⟩
        rcases (h.blocked dep).mp hblocked with ⟨j, jt, hjt, hblocks, hkey⟩
        rcases h.keys j jt hjt with ⟨req', hreq', hkey'⟩
        exact ⟨j, jt, ⟨req, req', hreq, hreq', hkey'.symm.trans hkey ▸ hdep⟩, hjt, hblocks⟩
      · intro hdep
        rcases hdep with ⟨j, jt, ⟨req₁, req', hreq₁, hreq', hdep⟩, hjt, hblocks⟩
        rw [hreq] at hreq₁
        cases hreq₁
        rcases h.keys j jt hjt with ⟨req'', hreq'', hkey⟩
        rw [hreq'] at hreq''
        cases hreq''
        exact ⟨req'.key, hdep, mem_nodeKeys.mpr ⟨j, req', hreq', rfl⟩,
          (h.blocked _).mpr ⟨j, jt, hjt, hblocks, hkey⟩⟩
    · rw [hother hi] at hit'
      have hmem : i ∈ done := (h.recorded i).mp ⟨it', hit'⟩
      rw [hsame (hclosed i hmem)]
      exact h.state i it' hit'

/-- A run of the loop goes through: nothing aborts a best-effort batch. -/
theorem runBatch_inv (routines : Routines σ) (idempotentDuplicateOk : Bool) {rest : List Nat} :
    ∀ {done : List Nat} {st : BatchState σ}, BatchInv requests done st → (done ++ rest).Nodup →
      (∀ i ∈ rest, ∃ req, requests[i]? = some req) →
      (∀ front i back, done ++ rest = front ++ i :: back →
        ∀ j, DependsOn requests i j → j ∈ front) →
      ∃ st', runBatch routines .bestEffort idempotentDuplicateOk requests rest st = .ok (st', false) ∧
        BatchInv requests (done ++ rest) st' := by
  induction rest with
  | nil =>
    intro done st h _ _ _
    exact ⟨st, rfl, (List.append_nil done).symm ▸ h⟩
  | cons idx rest ih =>
    intro done st h hnodup hvalid hbefore
    rcases hvalid idx List.mem_cons_self with ⟨req, hreq⟩
    rcases processRequest_recorded routines idempotentDuplicateOk (nodeKeys requests) idx req st with
      ⟨it, hrec, hstate⟩
    have hidx : idx ∉ done := by
      intro hmem
      exact (List.nodup_append.mp hnodup).2.2 idx hmem idx List.mem_cons_self rfl
    have hclosed : ∀ i ∈ done, ∀ j, DependsOn requests i j → j ∈ done := by
      intro i hi j hij
      rcases List.append_of_mem hi with ⟨front, back, rfl⟩
      exact List.mem_append_left _ (hbefore front i (back ++ idx :: rest) (by simp) j hij)
    have hstep := h.step hclosed hidx hreq (hbefore done idx rest rfl) hrec hstate
    have hsplit : done ++ idx :: rest = (done ++ [idx]) ++ rest := by simp
    rw [hsplit] at hnodup hbefore ⊢
    rcases ih hstep hnodup (fun i hi => hvalid i (List.mem_cons_of_mem idx hi)) hbefore with
      ⟨st', hrun, hinv⟩
    refine ⟨st', ?_, hinv⟩
    unfold runBatch
    simp only [hreq]
    exact hrun

theorem batchInv_start (ledger : σ) : BatchInv requests [] { ledger := ledger } where
  recorded i := by simp [BatchState.item?, Dict.get?]
  keys i it h := nomatch h
  blocked k := by simp [BatchState.item?, Dict.get?]
  state i it h := nomatch h

variable {order : List Nat}

/-- **A request is blocked exactly when one it depends on, in any number of steps, failed.** -/
theorem BatchInv.blocked_iff {st : BatchState σ} (h : BatchInv requests order st)
    (hbefore : ∀ front i back, order = front ++ i :: back →
      ∀ j, DependsOn requests i j → j ∈ front) {i : Nat} {it : AcceptItem}
    (hit : st.item? i = some it) :
    it.state = .blockedDependency ↔
      ∃ j jt, TransGen (DependsOn requests) i j ∧ st.item? j = some jt ∧ jt.Failed := by
  constructor
  · -- back along the order: a request it depends on stands before it
    have hback : ∀ (n : Nat) (front : List Nat) (i : Nat) (back : List Nat) (it : AcceptItem),
        front.length = n → order = front ++ i :: back → st.item? i = some it →
        it.state = .blockedDependency →
          ∃ j jt, TransGen (DependsOn requests) i j ∧ st.item? j = some jt ∧ jt.Failed := by
      intro n
      induction n using Nat.strong_induction_on with
      | _ n ih =>
        intro front i back it hlen horder hit hblocked
        rcases (h.state i it hit).mp hblocked with ⟨j, jt, hij, hjt, hfailed | hblocked'⟩
        · exact ⟨j, jt, .single hij, hjt, hfailed⟩
        · rcases List.append_of_mem (hbefore front i back horder j hij) with ⟨first, second, rfl⟩
          have hshort : first.length < n := by
            rw [← hlen, List.length_append, List.length_cons]
            omega
          have horder' : order = first ++ j :: (second ++ i :: back) := by simpa using horder
          rcases ih first.length hshort first j _ jt rfl horder' hjt hblocked' with
            ⟨m, mt, hjm, hmt, hfailed⟩
          exact ⟨m, mt, .head hij hjm, hmt, hfailed⟩
    intro hblocked
    rcases List.append_of_mem ((h.recorded i).mp ⟨it, hit⟩) with ⟨front, back, horder⟩
    exact hback front.length front i back it rfl horder hit hblocked
  · intro hdep
    rcases hdep with ⟨j, jt, hpath, hjt, hfailed⟩
    induction hpath using TransGen.head_induction_on generalizing it with
    | single hij => exact (h.state _ it hit).mpr ⟨j, jt, hij, hjt, .inl hfailed⟩
    | head hik hkj ih =>
      rcases List.append_of_mem ((h.recorded _).mp ⟨it, hit⟩) with ⟨front, back, horder⟩
      have hk : _ ∈ order :=
        horder ▸ List.mem_append_left _ (hbefore front _ back horder _ hik)
      rcases (h.recorded _).mpr hk with ⟨kt, hkt⟩
      exact (h.state _ it hit).mpr ⟨_, kt, hik, hkt, .inr (ih hkt)⟩

/-! ## The batch -/

/-- The items of a batch whose requests all have one. -/
theorem items_of_all_recorded {st : BatchState σ} (h : ∀ i < requests.length, ∃ it, st.item? i = some it)
    {items : List AcceptItem}
    (hitems : items = requests.zipIdx.filterMap fun (req, idx) =>
      match Dict.get? st.results idx with
      | some item => some item
      | none => if false = true then some (abortedItem req) else none) :
    items.length = requests.length ∧
      ∀ i, i < requests.length → items[i]? = st.item? i := by
  have heq : ∀ p ∈ requests.zipIdx, (match Dict.get? st.results p.2 with
      | some item => some item
      | none => if false = true then some (abortedItem p.1) else none) =
        some ((st.item? p.2).getD (abortedItem p.1)) := by
    intro p hp
    have hlt : p.2 < requests.length :=
      (List.getElem?_eq_some_iff.mp (List.mk_mem_zipIdx_iff_getElem?.mp hp)).1
    rcases h p.2 hlt with ⟨it, hit⟩
    unfold BatchState.item? at hit ⊢
    rw [hit]
    rfl
  rw [List.filterMap_congr heq, List.filterMap_eq_map'] at hitems
  subst hitems
  constructor
  · rw [List.length_map, List.length_zipIdx]
  · intro i hi
    rcases h i hi with ⟨it, hit⟩
    rw [List.getElem?_map, List.getElem?_zipIdx, List.getElem?_eq_getElem hi, hit]
    simp [hit]

/-- **A best-effort batch that has an order is run to its end**, and blocks exactly the requests that
depend on one that failed. -/
theorem acceptMany_bestEffort (routines : Routines σ) (ledger : σ) (idempotentDuplicateOk : Bool)
    (horder : topologicalRequestOrder requests = .ok order) :
    ∃ ledger' items, acceptManyCandidateSets routines ledger .bestEffort idempotentDuplicateOk
        requests = .ok (ledger', items) ∧
      items.length = requests.length ∧
      ∀ i it, items[i]? = some it →
        (it.state = .blockedDependency ↔
          ∃ j jt, TransGen (DependsOn requests) i j ∧ items[j]? = some jt ∧ jt.Failed) := by
  by_cases hempty : requests.isEmpty = true
  · have hnil : requests = [] := List.isEmpty_iff.mp hempty
    subst hnil
    exact ⟨ledger, [], rfl, rfl, fun i it h => nomatch h⟩
  · have hperm := order_perm horder
    have hmem : ∀ i, i ∈ order ↔ i < requests.length := fun i => by
      rw [hperm.mem_iff, List.mem_range]
    have hbefore : ∀ front i back, [] ++ order = front ++ i :: back →
        ∀ j, DependsOn requests i j → j ∈ front := fun front i back h j hij =>
      order_before horder h hij
    rcases runBatch_inv routines idempotentDuplicateOk (batchInv_start ledger)
      (hperm.nodup_iff.mpr List.nodup_range)
      (fun i hi => ⟨_, List.getElem?_eq_getElem ((hmem i).mp hi)⟩) hbefore with ⟨st, hrun, hinv⟩
    rw [List.nil_append] at hinv hbefore
    have hall : ∀ i < requests.length, ∃ it, st.item? i = some it := fun i hi =>
      (hinv.recorded i).mpr ((hmem i).mpr hi)
    rcases items_of_all_recorded hall rfl with ⟨hlen, hitem⟩
    refine ⟨st.ledger, _, ?_, hlen, ?_⟩
    · unfold acceptManyCandidateSets
      rw [if_neg hempty, horder, ok_bind, hrun]
      rfl
    · intro i it hit
      have hi : i < requests.length := hlen ▸ (List.getElem?_eq_some_iff.mp hit).1
      rw [hinv.blocked_iff hbefore ((hitem i hi).symm.trans hit)]
      apply exists_congr
      intro j
      apply exists_congr
      intro jt
      apply and_congr_right
      intro hij
      -- what a request depends on is a request
      have hj : j < requests.length := by
        rcases TransGen.tail'_iff.mp hij with ⟨_, _, _, _, _, hreq, _⟩
        exact (List.getElem?_eq_some_iff.mp hreq).1
      rw [hitem j hj]

/-- **The order of a batch, and what a best-effort batch blocks.** The order is refused exactly when
the requests have a cycle, and otherwise has every request once, after those it depends on; a batch
then blocks exactly the requests that depend on one that failed. -/
theorem accept_batch (requests : List AcceptRequest) :
    ((∃ e, topologicalRequestOrder requests = .error e) ↔
      ∃ i, TransGen (DependsOn requests) i i) ∧
    (∀ order, topologicalRequestOrder requests = .ok order →
      order.Perm (List.range requests.length) ∧
        ∀ front i back, order = front ++ i :: back →
          ∀ j, DependsOn requests i j → j ∈ front) ∧
    ∀ (σ : Type) (routines : Routines σ) (ledger : σ) (idempotentDuplicateOk : Bool),
      ((∃ r, acceptManyCandidateSets routines ledger .bestEffort idempotentDuplicateOk requests =
          .ok r) ↔ ¬ ∃ i, TransGen (DependsOn requests) i i) ∧
      ∀ ledger' items,
        acceptManyCandidateSets routines ledger .bestEffort idempotentDuplicateOk requests =
            .ok (ledger', items) →
          items.length = requests.length ∧
          ∀ i it, items[i]? = some it →
            (it.state = .blockedDependency ↔
              ∃ j jt, TransGen (DependsOn requests) i j ∧ items[j]? = some jt ∧ jt.Failed) := by
  have hacyclic := @topologicalRequestOrder_ok_iff requests
  refine ⟨?_, ?_, ?_⟩
  · rw [← not_iff_not, ← hacyclic]
    cases topologicalRequestOrder requests <;> simp
  · intro order horder
    exact ⟨order_perm horder, fun front i back h j hij => order_before horder h hij⟩
  · intro σ routines ledger idempotentDuplicateOk
    have hreturns : (∃ r, acceptManyCandidateSets routines ledger .bestEffort
        idempotentDuplicateOk requests = .ok r) ↔ ∃ order, topologicalRequestOrder requests = .ok order := by
      constructor
      · intro h
        rcases h with ⟨r, h⟩
        unfold acceptManyCandidateSets at h
        by_cases hempty : requests.isEmpty = true
        · rw [List.isEmpty_iff.mp hempty]
          exact ⟨[], by decide⟩
        · rw [if_neg hempty] at h
          rcases bind_ok_iff.mp h with ⟨order, horder, _⟩
          exact ⟨order, horder⟩
      · intro h
        rcases h with ⟨order, horder⟩
        rcases acceptMany_bestEffort routines ledger idempotentDuplicateOk horder with
          ⟨ledger', items, h, _⟩
        exact ⟨_, h⟩
    refine ⟨hreturns.trans hacyclic, ?_⟩
    intro ledger' items h
    rcases hreturns.mp ⟨_, h⟩ with ⟨order, horder⟩
    rcases acceptMany_bestEffort routines ledger idempotentDuplicateOk horder with
      ⟨ledger'', items', h', hspec⟩
    rw [h] at h'
    cases h'
    exact hspec

end FactGraph.Derivation
