import Mathlib.Data.List.Dedup
import FactGraph.Derivation.Candidates
import FactGraph.Lib.Buckets
import FactGraph.Lib.Check
import FactGraph.Lib.Kahn

/-!
# Accepting a batch

`accept_many_candidate_sets` of `core/derivation/accept.py`: a batch of candidates is accepted in an
order in which every candidate comes after the candidates of the batch its terms refer to.

Accepting one candidate (`accept_candidate_set`) and retracting an assertion (`retract_by_asrt`) are
parameters of the batch, as is the ledger they work on: the batch itself only reads what they answer.
-/

namespace FactGraph.Derivation

open Check

/-- What the batch raises itself; `retraction` is what a retraction raised. -/
inductive AcceptErr where
  | writeProtocol (msg : String)
  | retraction (msg : String)
  deriving DecidableEq

/-- An `AcceptRequest`. -/
structure AcceptRequest where
  candidateSet : DerivationOutput
  identityOverride : Option PyVal := none
  approvedBy : Option String := none
  note : Option String := none
  actorMeta : Option PyVal := none

/-- The key of the candidate of a request. -/
def AcceptRequest.key (req : AcceptRequest) : String := req.candidateSet.candidateKey

/-- The keys the candidate of a request refers to. -/
def AcceptRequest.deps (req : AcceptRequest) : List String := extractCandidateRefs req.candidateSet

/-! ## The order -/

/-- `key_to_indexes`. -/
def keyToIndexes (requests : List AcceptRequest) : List (String × List Nat) :=
  Buckets.ofList (fun p => p.1.key) Prod.snd requests.zipIdx

/-- `dep_keys_by_key[key]`: what the requests of a key refer to. -/
def depKeysByKey (requests : List AcceptRequest) (key : String) : List String :=
  ((requests.filter fun req => req.key = key).flatMap AcceptRequest.deps).dedup

/-- `sorted` on keys. -/
def sortKeys (keys : List String) : List String := keys.insertionSort (· ≤ ·)

/-- `node_keys`. -/
def nodeKeys (requests : List AcceptRequest) : List String := Dict.keys (keyToIndexes requests)

/-- `in_degree`. -/
def inDegree (requests : List AcceptRequest) : List (String × Int) :=
  (nodeKeys requests).map fun key =>
    (key, (((depKeysByKey requests key).filter fun dep => dep ∈ nodeKeys requests).length : Int))

/-- `sorted(outgoing[key])`. -/
def outgoing (requests : List AcceptRequest) (dep : String) : List String :=
  sortKeys ((nodeKeys requests).filter fun key => dep ∈ depKeysByKey requests key)

/-- The keys of in-degree zero, sorted: the queue at the start. -/
def startQueue (requests : List AcceptRequest) : List String :=
  sortKeys (((inDegree requests).filter fun p => p.2 = 0).map Prod.fst)

/-- `ordered_keys`. A key is taken off the queue at most once. -/
def orderedKeys (requests : List AcceptRequest) : List String :=
  Kahn.drain (outgoing requests) (nodeKeys requests).length
    (startQueue requests, inDegree requests) []

/-- `_topological_request_order`: the indexes in order. The other two values it returns are
`AcceptRequest.deps` and `keyToIndexes`. -/
def topologicalRequestOrder (requests : List AcceptRequest) : Except AcceptErr (List Nat) := do
  require ((orderedKeys requests).length = (nodeKeys requests).length) (.writeProtocol
    "CANDIDATE_DEPENDENCY_CYCLE: candidate dependency graph has cycle")
  .ok ((orderedKeys requests).flatMap (Buckets.get (keyToIndexes requests)))

/-! ## One request -/

/-- What `accept_candidate_set` answers: a result, or an exception with the code
`_error_code_from_exception` gives it. -/
inductive AcceptAnswer where
  | result (entityRef : Option String) (writtenAsrtIds : List String) (duplicates : Nat)
  | raised (isWriteProtocolError : Bool) (code message : String)

/-- `state` of an item. -/
inductive ItemState where
  | accepted
  | duplicate
  | blockedDependency
  | failedValidation
  | failedRuntime
  deriving DecidableEq, Repr

/-- `_accept_many_item`. -/
structure AcceptItem where
  candidateId : String
  candidateKey : String
  state : ItemState
  entityRef : Option String
  error : Option (String × String)
  deriving DecidableEq

/-- The item of a candidate. -/
def acceptManyItem (candidate : DerivationOutput) (state : ItemState) (entityRef : Option String)
    (error : Option (String × String)) : AcceptItem where
  candidateId := candidate.candidateId
  candidateKey := candidate.candidateKey
  state := state
  entityRef := entityRef
  error := error

/-- The `mode` of a batch. -/
inductive Mode where
  | atomic
  | bestEffort
  deriving DecidableEq, Repr

/-- The two routines of the ledger that a batch calls. -/
structure Routines (σ : Type) where
  acceptCandidateSet : σ → AcceptRequest → List (String × String) → σ × AcceptAnswer
  retractByAsrt : σ → String → String → Except AcceptErr σ

/-- The variables of the loop. -/
structure BatchState (σ : Type) where
  ledger : σ
  results : List (Nat × AcceptItem) := []
  blockedKeys : List String := []
  acceptedEntityRefs : List (String × String) := []
  writtenAsrtIdsByIndex : List (Nat × List String) := []
  processedIndexes : List Nat := []

variable {σ : Type}

/-- Record the item of a request. -/
def BatchState.record (st : BatchState σ) (idx : Nat) (item : AcceptItem) : BatchState σ :=
  { st with
    results := Dict.set st.results idx item
    processedIndexes := st.processedIndexes ++ [idx] }

/-- Record the item of a request, and block its key. -/
def BatchState.block (st : BatchState σ) (idx : Nat) (item : AcceptItem) : BatchState σ :=
  { st.record idx item with blockedKeys := item.candidateKey :: st.blockedKeys }

/-- `written_asrt_ids_by_index[idx] = asrt_ids`, when there are any. -/
def BatchState.noteWritten (st : BatchState σ) (idx : Nat) (asrtIds : List String) : BatchState σ :=
  if asrtIds.isEmpty then st
  else { st with writtenAsrtIdsByIndex := Dict.set st.writtenAsrtIdsByIndex idx asrtIds }

/-- `accepted_entity_refs[candidate_key] = entity_ref`, when it is a text that is not empty. -/
def BatchState.noteEntityRef (st : BatchState σ) (key : String) (entityRef : Option String) :
    BatchState σ :=
  match entityRef.filter (· ≠ "") with
  | some ref => { st with acceptedEntityRefs := Dict.set st.acceptedEntityRefs key ref }
  | none => st

@[simp] theorem BatchState.noteWritten_results (st : BatchState σ) (idx : Nat)
    (asrtIds : List String) : (st.noteWritten idx asrtIds).results = st.results := by
  unfold BatchState.noteWritten
  split <;> rfl

@[simp] theorem BatchState.noteWritten_blockedKeys (st : BatchState σ) (idx : Nat)
    (asrtIds : List String) : (st.noteWritten idx asrtIds).blockedKeys = st.blockedKeys := by
  unfold BatchState.noteWritten
  split <;> rfl

@[simp] theorem BatchState.noteEntityRef_results (st : BatchState σ) (key : String)
    (entityRef : Option String) : (st.noteEntityRef key entityRef).results = st.results := by
  unfold BatchState.noteEntityRef
  split <;> rfl

@[simp] theorem BatchState.noteEntityRef_blockedKeys (st : BatchState σ) (key : String)
    (entityRef : Option String) :
    (st.noteEntityRef key entityRef).blockedKeys = st.blockedKeys := by
  unfold BatchState.noteEntityRef
  split <;> rfl

/-- What the loop makes of the answer on a request; `true` when the request failed. -/
def settle (idempotentDuplicateOk : Bool) (idx : Nat) (req : AcceptRequest) (st : BatchState σ) :
    AcceptAnswer → BatchState σ × Bool
  | .raised isWriteProtocolError code message =>
      let state := if isWriteProtocolError then .failedValidation else .failedRuntime
      (st.block idx (acceptManyItem req.candidateSet state none (some (code, message))), true)
  | .result entityRef writtenAsrtIds duplicates =>
      if 0 < duplicates ∧ !idempotentDuplicateOk then
        ((st.noteWritten idx writtenAsrtIds).block idx
          (acceptManyItem req.candidateSet .failedValidation entityRef
            (some ("DUPLICATE_NOT_ALLOWED",
              "duplicate candidate encountered while idempotent_duplicate_ok=False"))), true)
      else
        (((st.noteWritten idx writtenAsrtIds).noteEntityRef req.key entityRef).record idx
          (acceptManyItem req.candidateSet
            (if 0 < duplicates then .duplicate else .accepted) entityRef none), false)

/-- One iteration of the loop; `true` when the request failed. -/
def processRequest (routines : Routines σ) (mode : Mode) (idempotentDuplicateOk : Bool)
    (inBatch : List String) (idx : Nat) (req : AcceptRequest) (st : BatchState σ) :
    BatchState σ × Bool :=
  let depsInBatch := req.deps.filter (· ∈ inBatch)
  if mode = .bestEffort ∧ depsInBatch.any (· ∈ st.blockedKeys) then
    (st.block idx (acceptManyItem req.candidateSet .blockedDependency none
      (some ("BLOCKED_DEPENDENCY", "dependency candidate failed or is blocked"))), false)
  else
    let (ledger, answer) := routines.acceptCandidateSet st.ledger req st.acceptedEntityRefs
    settle idempotentDuplicateOk idx req { st with ledger } answer

/-! ## Atomic failure -/

/-- Retract what the requests processed so far have written. -/
def retractWritten (routines : Routines σ) (failedCandidateId : String) (ledger : σ) :
    List String → Except AcceptErr σ
  | [] => .ok ledger
  | asrtId :: rest => do
      let ledger ← routines.retractByAsrt ledger asrtId failedCandidateId
      retractWritten routines failedCandidateId ledger rest

/-- The item of a request that was accepted and rolled back. -/
def rolledBack (item : AcceptItem) : AcceptItem :=
  if item.state = .accepted then
    { item with
      state := .failedRuntime
      entityRef := none
      error := some ("ATOMIC_ROLLBACK", "atomic accept_many rolled back due to batch failure") }
  else item

/-- `_rollback_atomic_accept_many`. -/
def rollbackAtomic (routines : Routines σ) (failedCandidateId : String) (st : BatchState σ) :
    Except AcceptErr (BatchState σ) := do
  let ledger ← retractWritten routines failedCandidateId st.ledger
    (st.processedIndexes.flatMap fun idx => (Dict.get? st.writtenAsrtIdsByIndex idx).getD [])
  .ok { st with ledger, results := st.results.map fun p => (p.1, rolledBack p.2) }

/-- `_fill_unprocessed_atomic_abort`. -/
def abortedItem (req : AcceptRequest) : AcceptItem :=
  acceptManyItem req.candidateSet .blockedDependency none
    (some ("ATOMIC_ABORTED", "atomic accept_many aborted before this candidate was executed"))

/-! ## The batch -/

/-- The loop over the ordered indexes; `true` when an atomic batch was aborted. -/
def runBatch (routines : Routines σ) (mode : Mode) (idempotentDuplicateOk : Bool)
    (requests : List AcceptRequest) :
    List Nat → BatchState σ → Except AcceptErr (BatchState σ × Bool)
  | [], st => .ok (st, false)
  | idx :: rest, st =>
      match requests[idx]? with
      | none => runBatch routines mode idempotentDuplicateOk requests rest st
      | some req => do
          let (st, failed) := processRequest routines mode idempotentDuplicateOk
            (nodeKeys requests) idx req st
          if mode = .atomic ∧ failed then do
            let st ← rollbackAtomic routines req.candidateSet.candidateId st
            .ok (st, true)
          else runBatch routines mode idempotentDuplicateOk requests rest st

/-- `accept_many_candidate_sets`: the ledger afterwards, and the items. -/
def acceptManyCandidateSets (routines : Routines σ) (ledger : σ) (mode : Mode)
    (idempotentDuplicateOk : Bool) (requests : List AcceptRequest) :
    Except AcceptErr (σ × List AcceptItem) := do
  if requests.isEmpty then .ok (ledger, [])
  else do
    let order ← topologicalRequestOrder requests
    let (st, aborted) ← runBatch routines mode idempotentDuplicateOk requests order { ledger }
    let items := requests.zipIdx.filterMap fun (req, idx) =>
      match Dict.get? st.results idx with
      | some item => some item
      | none => if aborted then some (abortedItem req) else none
    .ok (st.ledger, items)

/-!
## The order of a batch

Requests depend on requests: on all of the batch whose key their candidate refers to. The order is
computed on keys, where the references of all requests of one key are put together; it exists exactly
when the requests have no cycle, since a cycle of keys is one of requests (`topologicalRequestOrder_ok_iff`),
and then every request comes after those it depends on (`order_before`).
-/

open Relation

variable {requests : List AcceptRequest}

/-- One request of the batch refers to the key of another. -/
def DependsOn (requests : List AcceptRequest) (i j : Nat) : Prop :=
  ∃ req req', requests[i]? = some req ∧ requests[j]? = some req' ∧ req'.key ∈ req.deps

/-! ## Keys -/

theorem nodeKeys_nodup (requests : List AcceptRequest) : (nodeKeys requests).Nodup :=
  Buckets.nodup_keys_ofList _ _ _

theorem mem_nodeKeys {key : String} :
    key ∈ nodeKeys requests ↔
      ∃ (i : Nat) (req : AcceptRequest), requests[i]? = some req ∧ req.key = key := by
  unfold nodeKeys keyToIndexes
  rw [Buckets.mem_keys_ofList]
  constructor
  · intro h
    rcases h with ⟨p, hp, hkey⟩
    exact ⟨p.2, p.1, List.mk_mem_zipIdx_iff_getElem?.mp hp, hkey⟩
  · intro h
    rcases h with ⟨i, req, hreq, hkey⟩
    exact ⟨(req, i), List.mk_mem_zipIdx_iff_getElem?.mpr hreq, hkey⟩

theorem mem_depKeysByKey {key dep : String} :
    dep ∈ depKeysByKey requests key ↔
      ∃ (i : Nat) (req : AcceptRequest),
        requests[i]? = some req ∧ req.key = key ∧ dep ∈ req.deps := by
  unfold depKeysByKey
  rw [List.mem_dedup, List.mem_flatMap]
  constructor
  · intro h
    rcases h with ⟨req, hreq, hdep⟩
    rcases List.mem_filter.mp hreq with ⟨hmem, hkey⟩
    rcases List.mem_iff_getElem?.mp hmem with ⟨i, hi⟩
    exact ⟨i, req, hi, of_decide_eq_true hkey, hdep⟩
  · intro h
    rcases h with ⟨i, req, hreq, hkey, hdep⟩
    exact ⟨req, List.mem_filter.mpr ⟨List.mem_of_getElem? hreq, decide_eq_true hkey⟩, hdep⟩

/-- The relation of the keys. -/
abbrev KeyDepends (requests : List AcceptRequest) (key dep : String) : Prop :=
  dep ∈ depKeysByKey requests key

theorem outgoing_spec (dep : String) : (outgoing requests dep).Nodup ∧
    ∀ key, key ∈ outgoing requests dep ↔ key ∈ nodeKeys requests ∧ KeyDepends requests key dep := by
  unfold outgoing sortKeys
  constructor
  · exact (List.perm_insertionSort _ _).nodup_iff.mpr ((nodeKeys_nodup requests).filter _)
  · intro key
    rw [(List.perm_insertionSort _ _).mem_iff, List.mem_filter, decide_eq_true_eq]

/-- The in-degree of a key is the number of its dependencies in the batch. -/
theorem inDegree_eq (key : String) :
    ((depKeysByKey requests key).filter fun dep => dep ∈ nodeKeys requests).length =
      Kahn.pending (nodeKeys requests) (KeyDepends requests) key [] := by
  unfold Kahn.pending
  apply List.Perm.length_eq
  apply (List.perm_ext_iff_of_nodup ((List.nodup_dedup _).filter _)
    ((nodeKeys_nodup requests).filter _)).mpr
  intro dep
  simp only [List.mem_filter, decide_eq_true_eq, List.not_mem_nil, not_false_eq_true, and_true]
  exact And.comm

theorem get?_inDegree {key : String} (h : key ∈ nodeKeys requests) :
    Dict.get? (inDegree requests) key =
      some (Kahn.pending (nodeKeys requests) (KeyDepends requests) key [] : Int) := by
  have hkeys : Dict.keys (inDegree requests) = nodeKeys requests := by
    unfold Dict.keys inDegree
    rw [List.map_map]
    exact List.map_id _
  rw [Dict.get?_eq_some_iff (hkeys ▸ nodeKeys_nodup requests), ← inDegree_eq]
  exact List.mem_map.mpr ⟨key, h, rfl⟩

theorem mem_startQueue {key : String} : key ∈ startQueue requests ↔ key ∈ nodeKeys requests ∧
    Kahn.pending (nodeKeys requests) (KeyDepends requests) key [] = 0 := by
  unfold startQueue sortKeys inDegree
  rw [(List.perm_insertionSort _ _).mem_iff, List.filter_map, List.map_map, List.mem_map]
  constructor
  · intro h
    rcases h with ⟨k, hk, rfl⟩
    rcases List.mem_filter.mp hk with ⟨hk, hzero⟩
    have hlen := Int.natCast_eq_zero.mp (of_decide_eq_true hzero)
    rw [inDegree_eq] at hlen
    exact ⟨hk, hlen⟩
  · intro h
    refine ⟨key, List.mem_filter.mpr ⟨h.1, decide_eq_true ?_⟩, rfl⟩
    rw [← inDegree_eq] at h
    exact Int.natCast_eq_zero.mpr h.2

theorem inv_start : Kahn.Inv (nodeKeys requests) (KeyDepends requests) (startQueue requests)
    (inDegree requests) [] where
  degree _ hk := get?_inDegree hk
  nodup := by
    rw [List.nil_append]
    unfold startQueue sortKeys inDegree
    rw [(List.perm_insertionSort _ _).nodup_iff, List.filter_map, List.map_map]
    exact ((nodeKeys_nodup requests).filter _).map fun _ _ h => h
  ready _ := mem_startQueue
  inOrder front k back h := by
    cases front <;> cases h

/-- The run of the queue. -/
theorem inv_orderedKeys (requests : List AcceptRequest) :
    ∃ degree, Kahn.Inv (nodeKeys requests) (KeyDepends requests) [] degree
      (orderedKeys requests) :=
  Kahn.drain_inv (nodeKeys_nodup requests) outgoing_spec _ inv_start (by simp)

/-! ## Cycles -/

/-- A cycle of keys is a cycle of requests. -/
theorem key_cycle_iff :
    (∃ key, TransGen (Kahn.DependsOn (nodeKeys requests) (KeyDepends requests)) key key) ↔
      ∃ i, TransGen (DependsOn requests) i i := by
  constructor
  · intro h
    rcases h with ⟨key, hcycle⟩
    -- a path of keys is a path of requests, which may end at any request of the last key
    have hpath : ∀ {k d}, TransGen (Kahn.DependsOn (nodeKeys requests) (KeyDepends requests)) k d →
        ∃ i req, requests[i]? = some req ∧ req.key = k ∧
          ∀ j req', requests[j]? = some req' → req'.key = d → TransGen (DependsOn requests) i j := by
      intro k d hkd
      induction hkd using TransGen.head_induction_on with
      | single hstep =>
        rcases mem_depKeysByKey.mp hstep.2.2 with ⟨i, req, hreq, hkey, hdep⟩
        refine ⟨i, req, hreq, hkey, ?_⟩
        intro j req' hreq' hkey'
        exact .single ⟨req, req', hreq, hreq', hkey' ▸ hdep⟩
      | head hstep _ ih =>
        rcases mem_depKeysByKey.mp hstep.2.2 with ⟨i, req, hreq, hkey, hdep⟩
        rcases ih with ⟨m, reqm, hreqm, hkeym, hrest⟩
        refine ⟨i, req, hreq, hkey, ?_⟩
        intro j req' hreq' hkey'
        exact .head ⟨req, reqm, hreq, hreqm, hkeym ▸ hdep⟩ (hrest j req' hreq' hkey')
    rcases hpath hcycle with ⟨i, req, hreq, hkey, hrest⟩
    exact ⟨i, hrest i req hreq hkey⟩
  · intro h
    rcases h with ⟨i, hcycle⟩
    have hpath : ∀ {i j}, TransGen (DependsOn requests) i j → ∃ req req',
        requests[i]? = some req ∧ requests[j]? = some req' ∧
          TransGen (Kahn.DependsOn (nodeKeys requests) (KeyDepends requests)) req.key req'.key := by
      have hone : ∀ {i j}, DependsOn requests i j → ∃ req req', requests[i]? = some req ∧
          requests[j]? = some req' ∧
            Kahn.DependsOn (nodeKeys requests) (KeyDepends requests) req.key req'.key := by
        intro i j hij
        rcases hij with ⟨req, req', hreq, hreq', hdep⟩
        exact ⟨req, req', hreq, hreq', mem_nodeKeys.mpr ⟨i, req, hreq, rfl⟩,
          mem_nodeKeys.mpr ⟨j, req', hreq', rfl⟩, mem_depKeysByKey.mpr ⟨i, req, hreq, rfl, hdep⟩⟩
      intro i j hij
      induction hij with
      | single hstep =>
        rcases hone hstep with ⟨req, req', hreq, hreq', hdep⟩
        exact ⟨req, req', hreq, hreq', .single hdep⟩
      | tail _ hstep ih =>
        rcases ih with ⟨req, reqm, hreq, hreqm, hfirst⟩
        rcases hone hstep with ⟨reqm', req', hreqm', hreq', hdep⟩
        rw [hreqm] at hreqm'
        cases hreqm'
        exact ⟨req, req', hreq, hreq', hfirst.tail hdep⟩
    rcases hpath hcycle with ⟨req, req', hreq, hreq', hkeys⟩
    rw [hreq] at hreq'
    cases hreq'
    exact ⟨req.key, hkeys⟩

/-- **The order is refused exactly when the requests have a cycle.** -/
theorem topologicalRequestOrder_ok_iff :
    (∃ order, topologicalRequestOrder requests = .ok order) ↔
      ¬ ∃ i, TransGen (DependsOn requests) i i := by
  rcases inv_orderedKeys requests with ⟨degree, hinv⟩
  rw [← key_cycle_iff, ← Kahn.all_taken_iff (nodeKeys_nodup requests) hinv]
  unfold topologicalRequestOrder
  constructor
  · intro h
    rcases h with ⟨order, h⟩
    exact of_decide_eq_true (require_ok_iff.mp (bind_unit_ok_iff.mp h).1)
  · intro h
    exact ⟨_, bind_unit_ok_iff.mpr ⟨require_ok_iff.mpr (decide_eq_true h), rfl⟩⟩

/-! ## Indexes -/

/-- The indexes of the requests of a key. -/
def indexesOf (requests : List AcceptRequest) (key : String) : List Nat :=
  Buckets.get (keyToIndexes requests) key

theorem mem_indexesOf {key : String} {i : Nat} :
    i ∈ indexesOf requests key ↔ ∃ req, requests[i]? = some req ∧ req.key = key := by
  unfold indexesOf keyToIndexes
  rw [Buckets.indexes_ofList, List.mem_map]
  constructor
  · intro h
    rcases h with ⟨p, hp, rfl⟩
    rcases List.mem_filter.mp hp with ⟨hmem, hkey⟩
    exact ⟨p.1, List.mk_mem_zipIdx_iff_getElem?.mp hmem, of_decide_eq_true hkey⟩
  · intro h
    rcases h with ⟨req, hreq, hkey⟩
    exact ⟨(req, i), List.mem_filter.mpr
      ⟨List.mk_mem_zipIdx_iff_getElem?.mpr hreq, decide_eq_true hkey⟩, rfl⟩

theorem indexesOf_nodup (requests : List AcceptRequest) (key : String) :
    (indexesOf requests key).Nodup := by
  unfold indexesOf keyToIndexes
  rw [Buckets.indexes_ofList]
  have hall : (requests.zipIdx.map Prod.snd).Nodup := by
    rw [List.zipIdx_map_snd]
    exact List.nodup_range'
  exact hall.sublist (List.filter_sublist.map _)

theorem flatMap_indexesOf_nodup {keys : List String} (h : keys.Nodup) :
    (keys.flatMap (indexesOf requests)).Nodup := by
  rw [List.nodup_flatMap]
  refine ⟨fun key _ => indexesOf_nodup requests key, ?_⟩
  apply h.imp
  intro key key' hne i hi hi'
  rcases mem_indexesOf.mp hi with ⟨req, hreq, rfl⟩
  rcases mem_indexesOf.mp hi' with ⟨req', hreq', rfl⟩
  rw [hreq] at hreq'
  cases hreq'
  exact hne rfl

variable {order : List Nat}

/-- The keys of an accepted order, all of them and each after those it refers to. -/
theorem order_eq (h : topologicalRequestOrder requests = .ok order) :
    ∃ keys : List String, keys.Perm (nodeKeys requests) ∧
      Kahn.InOrder (nodeKeys requests) (KeyDepends requests) keys ∧
        order = keys.flatMap (indexesOf requests) := by
  rcases inv_orderedKeys requests with ⟨degree, hinv⟩
  unfold topologicalRequestOrder at h
  rcases bind_unit_ok_iff.mp h with ⟨hlen, h⟩
  have hlen := of_decide_eq_true (require_ok_iff.mp hlen)
  have hnodup : (orderedKeys requests).Nodup := by simpa using hinv.nodup
  have hsub : orderedKeys requests ⊆ nodeKeys requests := fun k hk =>
    ((hinv.ready k).mp (by simpa using hk)).1
  exact ⟨_, (List.subperm_of_subset hnodup hsub).perm_of_length_le (by omega), hinv.inOrder,
    (Except.ok.inj h).symm⟩

/-- **The order has every index once.** -/
theorem order_perm (h : topologicalRequestOrder requests = .ok order) :
    order.Perm (List.range requests.length) := by
  rcases order_eq h with ⟨keys, hperm, _, rfl⟩
  apply (List.perm_ext_iff_of_nodup
    (flatMap_indexesOf_nodup (hperm.nodup_iff.mpr (nodeKeys_nodup requests)))
    List.nodup_range).mpr
  intro i
  rw [List.mem_flatMap, List.mem_range]
  constructor
  · intro hi
    rcases hi with ⟨key, _, hi⟩
    rcases mem_indexesOf.mp hi with ⟨req, hreq, _⟩
    exact (List.getElem?_eq_some_iff.mp hreq).1
  · intro hi
    have hreq := List.getElem?_eq_getElem hi
    exact ⟨requests[i].key, hperm.mem_iff.mpr (mem_nodeKeys.mpr ⟨i, _, hreq, rfl⟩),
      mem_indexesOf.mpr ⟨_, hreq, rfl⟩⟩

/-- What stands before an element, when it is not in a first part of the list. -/
theorem prefix_of_not_mem {A : Type} {first rest front back : List A} {a : A}
    (h : first ++ rest = front ++ a :: back) (ha : a ∉ first) : ∀ x ∈ first, x ∈ front := by
  rcases List.append_eq_append_iff.mp h with ⟨mid, rfl, _⟩ | ⟨mid, rfl, hmid⟩
  · exact fun x hx => List.mem_append_left _ hx
  · cases mid with
    | nil => exact fun x hx => by simpa using hx
    | cons b mid =>
      rcases List.cons.inj hmid with ⟨rfl, _⟩
      exact absurd (List.mem_append_right front List.mem_cons_self) ha

/-- **Every request comes after those it depends on.** -/
theorem order_before (h : topologicalRequestOrder requests = .ok order) {front back : List Nat}
    {i j : Nat} (hi : order = front ++ i :: back) (hij : DependsOn requests i j) : j ∈ front := by
  rcases order_eq h with ⟨keys, hperm, hkeys, rfl⟩
  rcases hij with ⟨req, req', hreq, hreq', hdep⟩
  have hnode : req.key ∈ nodeKeys requests := mem_nodeKeys.mpr ⟨i, req, hreq, rfl⟩
  have hnode' : req'.key ∈ nodeKeys requests := mem_nodeKeys.mpr ⟨j, req', hreq', rfl⟩
  rcases List.append_of_mem (hperm.mem_iff.mpr hnode) with ⟨before, after, rfl⟩
  have hbefore : req'.key ∈ before :=
    hkeys before req.key after rfl req'.key hnode'
      (mem_depKeysByKey.mpr ⟨i, req, hreq, rfl, hdep⟩)
  have hj : j ∈ before.flatMap (indexesOf requests) :=
    List.mem_flatMap.mpr ⟨req'.key, hbefore, mem_indexesOf.mpr ⟨req', hreq', rfl⟩⟩
  have hnot : i ∉ before.flatMap (indexesOf requests) := by
    intro hmem
    rcases List.mem_flatMap.mp hmem with ⟨key, hkey, hi⟩
    rcases mem_indexesOf.mp hi with ⟨req'', hreq'', rfl⟩
    rw [hreq] at hreq''
    cases hreq''
    have hnodup := hperm.nodup_iff.mpr (nodeKeys_nodup requests)
    exact (List.nodup_append.mp hnodup).2.2 req.key hkey req.key List.mem_cons_self rfl
  rw [List.flatMap_append] at hi
  exact prefix_of_not_mem hi hnot j hj

end FactGraph.Derivation
