import FactGraph.Lib.Optimistic
import FactGraph.Store.Atomic
import FactGraph.Store.Ordinals

/-!
# Commits against a head

A writer of a database observes the head of its ledger, prepares a transaction against it and submits
that to `commit_batch`; any number of writers do so in any order. `Ledger.protocol` is this as an
instance of `Optimistic.Protocol`: the head is `head_tx_id`, the parent of a batch is its
`expected_head_tx_id`.

The id of a transaction is a digest of its parent, its sequence number and its operations. Of this the
model keeps `seqOf`: an id determines the sequence number it was computed from.
-/

namespace FactGraph.Store

open Protocol Check Session Indexes Optimistic

/-! ## Heads -/

namespace Ledger

/-- The stored head. -/
def head (l : Ledger) : Option String := l.getLedgerMeta "head_tx_id"

/-- The sequence number stored with the head. -/
def headSeq (l : Ledger) : Option Nat := (l.getLedgerMeta "head_tx_seq").bind decimal?

/-- The sequence number of a transaction prepared now: `parent.tx_seq + 1`, and 0 for the first. -/
def nextSeq (l : Ledger) : Option Nat :=
  match l.head with
  | none => some 0
  | some _ => l.headSeq.map (· + 1)

end Ledger

/-- A batch as a writer prepares it against the head it observes. -/
structure Batch.Prepared (seqOf : String → Nat) (l : Ledger) (b : Batch) : Prop where
  parent : b.expectedHeadTxId = l.head
  seq : ∃ n, l.nextSeq = some n ∧ b.txSeq = .ok n ∧ seqOf b.headTxId = n

/-- A batch whose metadata is a dictionary: no key occurs twice. -/
abbrev Transaction := { b : Batch // (Dict.keys b.metadata).Nodup }

namespace Batch

/-- The lifecycle entries after a commit. -/
theorem ledgerMeta_of_commitBody {l : Ledger} {b : Batch} {n : Nat} (hcheck : b.check l = .ok n)
    {t : Tables} {hook : Hook Indexes StoreErr}
    (h : l.commitBody b n l.tables = .ok (t, hook)) (hkeys : (Dict.keys b.metadata).Nodup) :
    l.head = b.expectedHeadTxId ∧ ∀ key, Dict.get? t.ledgerMeta key =
      (Dict.get? b.metadata key).or
        (if key = "head_tx_id" then some b.headTxId else Dict.get? l.tables.ledgerMeta key) := by
  obtain ⟨hhead, t₀, t₁, hswap, hstored, rfl⟩ := stored_commitBody hcheck h
  refine ⟨hhead, ?_⟩
  intro key
  have hperm := List.perm_insertionSort (fun p q : String × String => p.1 ≤ q.1) b.metadata
  have hkeys' : (Dict.keys (b.metadata.insertionSort fun p q => p.1 ≤ q.1)).Nodup :=
    (hperm.map Prod.fst).nodup_iff.mpr hkeys
  show Dict.get? (Dict.update t₁.ledgerMeta (b.metadata.insertionSort fun p q => p.1 ≤ q.1)) key = _
  rw [Dict.get?_update hkeys', Dict.get?_perm hperm hkeys', hstored.ledgerMeta,
    (swapHead_ok_iff.mp hswap).2, Dict.get?_set]

/-- The checks keep the head out of the lifecycle metadata. -/
theorem check_metadata {l : Ledger} {b : Batch} {n : Nat} (h : b.check l = .ok n) :
    Dict.get? b.metadata "head_tx_id" = none := by
  unfold check at h
  obtain ⟨hhead, _⟩ := bind_unit_ok_iff.mp h
  unfold checkHead at hhead
  obtain ⟨_, hhead⟩ := bind_unit_ok_iff.mp hhead
  obtain ⟨_, hhead⟩ := bind_unit_ok_iff.mp hhead
  obtain ⟨hnot, _⟩ := bind_unit_ok_iff.mp hhead
  rw [require_ok_iff] at hnot
  simpa [Dict.has] using hnot

/-- **A commit goes through only against its head**, and advances it. -/
theorem head_of_commitBody {l : Ledger} {b : Batch} {n : Nat} (hcheck : b.check l = .ok n)
    {t : Tables} {hook : Hook Indexes StoreErr}
    (h : l.commitBody b n l.tables = .ok (t, hook)) (hkeys : (Dict.keys b.metadata).Nodup) :
    l.head = b.expectedHeadTxId ∧ (l.commitBatch b).1.head = some b.headTxId ∧
      (l.commitBatch b).1.headSeq = some n := by
  obtain ⟨hhead, hmeta⟩ := ledgerMeta_of_commitBody hcheck h hkeys
  rw [Ledger.commitBatch_of_commits hcheck h]
  refine ⟨hhead, ?_, ?_⟩
  · show Dict.get? t.ledgerMeta "head_tx_id" = _
    rw [hmeta, check_metadata hcheck]
    simp
  · show (Dict.get? t.ledgerMeta "head_tx_seq").bind Ledger.decimal? = _
    have hseq := (check_ok hcheck).1
    unfold txSeq at hseq
    rw [hmeta]
    cases hraw : Dict.get? b.metadata "head_tx_seq" with
    | none => simp [hraw] at hseq
    | some raw =>
      rw [hraw] at hseq
      simp only [Option.bind_some] at hseq
      cases hdecimal : Ledger.decimal? raw with
      | none => simp [hdecimal] at hseq
      | some m =>
        simp only [hdecimal, Except.ok.injEq] at hseq
        simp [hdecimal, hseq]

end Batch

/-! ## The protocol -/

/-- Writers that prepare and submit transactions. -/
def Ledger.protocol (seqOf : String → Nat) : Optimistic.Protocol Ledger Transaction (Option String) where
  head := Ledger.head
  parent b := b.1.expectedHeadTxId
  next b := some b.1.headTxId
  Prepares l b := b.1.Prepared seqOf l
  Commits l b := l.Commits b.1
  commit l b := (l.commitBatch b.1).1
  head_eq := by
    intro l b h
    obtain ⟨n, t, hook, hcheck, hbody⟩ := h
    exact (Batch.head_of_commitBody hcheck hbody b.2).1
  head_commit := by
    intro l b h
    obtain ⟨n, t, hook, hcheck, hbody⟩ := h
    exact (Batch.head_of_commitBody hcheck hbody b.2).2.1
  refused := by
    intro l b h
    obtain ⟨e, he⟩ := Ledger.commitBatch_of_refused h
    rw [he]

/-! ## Numbered ledgers -/

variable {seqOf : String → Nat}

/-- The sequence number of a transaction is the one its id was computed from, and one more than that of
its parent. -/
structure Batch.Chained (seqOf : String → Nat) (b : Batch) : Prop where
  seq : b.txSeq = .ok (seqOf b.headTxId)
  first : b.expectedHeadTxId = none → seqOf b.headTxId = 0
  next : ∀ id, b.expectedHeadTxId = some id → seqOf b.headTxId = seqOf id + 1

/-- The stored sequence number is that of the head, and no number after it is in use. -/
structure Ledger.Numbered (seqOf : String → Nat) (l : Ledger) : Prop where
  seq : ∀ id, l.head = some id → l.headSeq = some (seqOf id)
  uses : ∀ n, l.Uses n → ∃ id, l.head = some id ∧ n ≤ seqOf id

theorem Ledger.numbered_opened (lazyKeys : List String) :
    (Ledger.opened lazyKeys).Numbered seqOf where
  seq id h := by
    simp [Ledger.head, Ledger.getLedgerMeta, Ledger.opened, Tables.empty, Dict.get?_cons] at h
  uses n h := by
    rcases h with ⟨r, hr, _⟩ | ⟨r, hr, _⟩ | ⟨a, ha⟩
    · cases hr
    · cases hr
    · cases ha

/-- What is prepared against a numbered ledger is chained. -/
theorem Batch.Prepared.chained {l : Ledger} {b : Batch} (h : b.Prepared seqOf l)
    (hl : l.Numbered seqOf) : b.Chained seqOf := by
  obtain ⟨n, hnext, hseq, rfl⟩ := h.seq
  refine ⟨hseq, ?_, ?_⟩
  · intro hnone
    rw [h.parent] at hnone
    simpa [Ledger.nextSeq, hnone] using hnext.symm
  · intro id hid
    rw [h.parent] at hid
    simpa [Ledger.nextSeq, hid, hl.seq id hid] using hnext.symm

/-- Its sequence number is a new one, where its parent is the head. -/
theorem Batch.Chained.fresh {l : Ledger} {b : Batch} (h : b.Chained seqOf) (hl : l.Numbered seqOf)
    (hhead : l.head = b.expectedHeadTxId) : ∀ n, l.Uses n → n < seqOf b.headTxId := by
  intro n hn
  obtain ⟨id, hid, hle⟩ := hl.uses n hn
  rw [h.next id (hhead ▸ hid)]
  exact Nat.lt_succ_of_le hle

/-- **A commit keeps a ledger numbered**, however it ends. -/
theorem Ledger.Numbered.commitBatch {l : Ledger} {b : Transaction} (hl : l.Numbered seqOf)
    (hb : b.1.Chained seqOf) : (l.commitBatch b.1).1.Numbered seqOf := by
  by_cases hcommits : l.Commits b.1
  · obtain ⟨n, t, hook, hcheck, hbody⟩ := hcommits
    obtain ⟨hhead, hhead', hseq'⟩ := Batch.head_of_commitBody hcheck hbody b.2
    obtain rfl : n = seqOf b.1.headTxId := by
      have hseq := (Batch.check_ok hcheck).1
      rw [hb.seq] at hseq
      exact (Except.ok.inj hseq).symm
    constructor
    · intro id hid
      rw [hhead', Option.some.injEq] at hid
      rw [hseq', hid]
    · intro n hn
      refine ⟨_, hhead', ?_⟩
      rw [Ledger.commitBatch_of_commits hcheck hbody] at hn
      have hold : ∀ n, l.Uses n → n ≤ seqOf b.1.headTxId :=
        fun n hn => (hb.fresh hl hhead n hn).le
      obtain ⟨rows, hrows, _, htx⟩ := Batch.claimRows_of_commitBody hcheck hbody
      obtain ⟨cs, hw⟩ := Batch.writes_commitBody hcheck hbody
      obtain ⟨ms, hgrown, _⟩ := hw.tables
      rcases hn with ⟨r, hr, rfl⟩ | ⟨r, hr, rfl⟩ | ⟨a, ha⟩
      · have hr' : r ∈ l.tables.claims.rows ++ rows := hrows ▸ hr
        rcases List.mem_append.mp hr' with hr' | hr'
        · exact hold _ (.inl ⟨r, hr', rfl⟩)
        · exact (htx r hr').le
      · have hr' : r ∈ l.tables.claimMeta.rows ++ ms := hgrown.claimMeta ▸ hr
        rcases List.mem_append.mp hr' with hr' | hr'
        · exact hold _ (.inr (.inl ⟨r, hr', rfl⟩))
        · exact (hgrown.txSeqs r hr').le
      · have hplaced := hw.keeps _ _ (stable_placed l.isLazy _ (fun _ => True) l.indexes)
          (fun _ _ => trivial) _ (Placed.refl _ _ l.indexes)
        rcases hplaced.txRefs a with hsame | ⟨_, hnew⟩
        · exact hold _ (.inr (.inr ⟨a, hsame ▸ ha⟩))
        · have hsome : some n = some (seqOf b.1.headTxId) := ha.symm.trans hnew
          exact (Option.some.inj hsome).le
  · obtain ⟨e, he⟩ := Ledger.commitBatch_of_refused hcommits
    rw [he]
    exact hl

/-- What holds along every schedule. -/
structure NodeSound (seqOf : String → Nat) (node : Node Ledger Transaction) : Prop where
  numbered : node.store.Numbered seqOf
  chained : ∀ b ∈ node.prepared, b.1.Chained seqOf

theorem NodeSound.step (node : Node Ledger Transaction) (e : Event Transaction)
    (h : NodeSound seqOf node) (he : (Ledger.protocol seqOf).Enabled node e) :
    NodeSound seqOf ((Ledger.protocol seqOf).step node e) := by
  cases e with
  | prepare b =>
    refine ⟨h.numbered, ?_⟩
    intro c hc
    rcases List.mem_cons.mp hc with rfl | hc
    · exact Batch.Prepared.chained he h.numbered
    · exact h.chained c hc
  | submit b => exact ⟨h.numbered.commitBatch (h.chained b he), h.chained⟩

/-- Heads in the order of their sequence numbers, the missing one first. -/
def headRank (seqOf : String → Nat) : Option String → Nat
  | none => 0
  | some id => seqOf id + 1

theorem NodeSound.rank (node : Node Ledger Transaction) (h : NodeSound seqOf node) :
    ∀ b ∈ node.prepared, headRank seqOf ((Ledger.protocol seqOf).parent b) <
      headRank seqOf ((Ledger.protocol seqOf).next b) := by
  intro b hb
  have hchained := h.chained b hb
  show headRank seqOf b.1.expectedHeadTxId < seqOf b.1.headTxId + 1
  cases hparent : b.1.expectedHeadTxId with
  | none => exact Nat.succ_pos _
  | some id =>
    rw [hchained.next id hparent]
    exact Nat.lt_succ_self _

/-! ## Optimistic commits -/

/-- The ledger after a schedule, from an empty one. -/
def Ledger.after (seqOf : String → Nat) (lazyKeys : List String) (es : List (Event Transaction)) :
    Ledger :=
  ((Ledger.protocol seqOf).run ⟨Ledger.opened lazyKeys, []⟩ es).store

/-- The schedule can happen on an empty ledger. -/
def Ledger.Schedule (seqOf : String → Nat) (lazyKeys : List String) (es : List (Event Transaction)) :
    Prop :=
  (Ledger.protocol seqOf).Schedule ⟨Ledger.opened lazyKeys, []⟩ es

/-- What an optimistic commit promises of every call of a schedule. -/
structure Ledger.Safe (seqOf : String → Nat) (lazyKeys : List String)
    (es : List (Event Transaction)) : Prop where
  head : ∀ before b after, es = before ++ .submit b :: after →
    ((Ledger.after seqOf lazyKeys before).commitBatch b.1).2 = .ok () →
    (Ledger.after seqOf lazyKeys before).head = b.1.expectedHeadTxId
  once : ∀ before b between c after,
    es = before ++ .submit b :: (between ++ .submit c :: after) →
    ((Ledger.after seqOf lazyKeys before).commitBatch b.1).2 = .ok () →
    ((Ledger.after seqOf lazyKeys (before ++ .submit b :: between)).commitBatch c.1).2 = .ok () →
    b.1.expectedHeadTxId ≠ c.1.expectedHeadTxId
  atomic : ∀ before b after, es = before ++ .submit b :: after → ∀ e,
    ((Ledger.after seqOf lazyKeys before).commitBatch b.1).2 = .error e →
    ((Ledger.after seqOf lazyKeys before).commitBatch b.1).1 = Ledger.after seqOf lazyKeys before
  inOrder : ∀ before b after, es = before ++ .submit b :: after →
    ((Ledger.after seqOf lazyKeys before).commitBatch b.1).2 = .ok () → ∀ n, b.1.txSeq = .ok n →
    b.1.InOrder ((Ledger.after seqOf lazyKeys before).commitBatch b.1).1 n

/-- A call that returns has committed. -/
theorem Ledger.commits_of_ok {l : Ledger} {b : Batch} (h : (l.commitBatch b).2 = .ok ()) :
    l.Commits b := by
  by_contra hnot
  obtain ⟨e, he⟩ := Ledger.commitBatch_of_refused hnot
  rw [he] at h
  cases h

theorem Ledger.nodeSound_run {lazyKeys : List String} {es : List (Event Transaction)}
    (hs : Ledger.Schedule seqOf lazyKeys es) :
    NodeSound seqOf ((Ledger.protocol seqOf).run ⟨Ledger.opened lazyKeys, []⟩ es) :=
  Optimistic.Protocol.invariant NodeSound.step hs ⟨Ledger.numbered_opened lazyKeys, by simp⟩

/-- **Optimistic commits.** Whatever the order in which writers prepare and submit, a call returns only
against its head, of two with one parent at most one returns, and every call that returns stands
in order; and all that raise leave the ledger alone, exactly if every call whose transaction goes
through is indexable. -/
theorem Ledger.safe_iff {lazyKeys : List String} {es : List (Event Transaction)}
    (hs : Ledger.Schedule seqOf lazyKeys es) :
    Ledger.Safe seqOf lazyKeys es ↔ ∀ before b after, es = before ++ .submit b :: after →
      (Ledger.after seqOf lazyKeys before).Commits b.1 → b.1.Indexable := by
  constructor
  · intro hsafe before b after hes
    exact (Ledger.commitBatch_atomic_iff _ _).mp (hsafe.atomic before b after hes)
  · intro hindexable
    refine ⟨?_, ?_, ?_, ?_⟩
    · intro before b after _ hok
      exact (Ledger.protocol seqOf).head_eq (Ledger.commits_of_ok hok)
    · rintro before b between c after rfl hb hc
      exact Optimistic.Protocol.parent_ne (p := Ledger.protocol seqOf) NodeSound.step
        NodeSound.rank hs ⟨Ledger.numbered_opened lazyKeys, by simp⟩ (Ledger.commits_of_ok hb)
        (Ledger.commits_of_ok hc)
    · intro before b after hes
      exact (Ledger.commitBatch_atomic_iff _ _).mpr (hindexable before b after hes)
    · rintro before b after rfl hok n hn
      obtain ⟨hbefore, henabled, _⟩ := Optimistic.Protocol.schedule_append.mp hs
      have hnode := Ledger.nodeSound_run hbefore
      have hchained : b.1.Chained seqOf := hnode.chained b henabled
      have hhead : (Ledger.after seqOf lazyKeys before).head = b.1.expectedHeadTxId :=
        (Ledger.protocol seqOf).head_eq (Ledger.commits_of_ok hok)
      obtain rfl : n = seqOf b.1.headTxId := by
        rw [hchained.seq] at hn
        exact (Except.ok.inj hn).symm
      refine Batch.inOrder_of_ok hn ?_ (Prod.ext rfl hok)
      -- the sequence number is after all that are in use
      intro huses
      exact lt_irrefl _ (hchained.fresh hnode.numbered hhead _ huses)

/-- The first transaction of a database. -/
def genesisCommit : Transaction :=
  ⟨{ expectedHeadTxId := none, headTxId := "t0", metadata := [("head_tx_seq", "0")] }, by decide⟩

/-- A claim of two terms, against the first transaction. -/
def pairCommit (headTxId : String) (term : Term) : Transaction :=
  ⟨{ assertions := [⟨⟨"a1", "person:pair", "idref_v1:alice",
      [term, ("string", .leaf (.str "y"))]⟩, [], [], []⟩]
     expectedHeadTxId := some "t0", headTxId := headTxId, metadata := [("head_tx_seq", "1")] },
    by simp [Dict.keys]⟩

/-- Two writers observe one head; the second to submit is refused. -/
def twoWriters : List (Event Transaction) :=
  [.prepare genesisCommit, .submit genesisCommit,
    .prepare (pairCommit "t1" ("int", .leaf (.int 1))),
    .prepare (pairCommit "t2" ("int", .leaf (.int 2))),
    .submit (pairCommit "t2" ("int", .leaf (.int 2))),
    .submit (pairCommit "t1" ("int", .leaf (.int 1)))]

def pairSeqOf (id : String) : Nat := if id = "t0" then 0 else 1

theorem Ledger.safe_twoWriters : Ledger.Safe pairSeqOf [] twoWriters := by
  have hs : Ledger.Schedule pairSeqOf [] twoWriters := by
    refine ⟨⟨?_, 0, ?_, ?_, ?_⟩, List.mem_cons_self, ⟨?_, 1, ?_, ?_, ?_⟩, ⟨?_, 1, ?_, ?_, ?_⟩,
      List.mem_cons_self, List.mem_cons_of_mem _ List.mem_cons_self, trivial⟩
    all_goals rfl
  refine (Ledger.safe_iff hs).mpr ?_
  intro before b after hes _
  have hmem : Event.submit b ∈ twoWriters := by
    rw [hes]
    exact List.mem_append_right _ List.mem_cons_self
  have hb : b = genesisCommit ∨ b = pairCommit "t2" ("int", .leaf (.int 2)) ∨
      b = pairCommit "t1" ("int", .leaf (.int 1)) := by
    simpa [twoWriters] using hmem
  rcases hb with rfl | rfl | rfl
  · exact ⟨by simp [genesisCommit], by simp [genesisCommit]⟩
  · exact ⟨by simpa [pairCommit] using ⟨_, rfl⟩, by simp [pairCommit]⟩
  · exact ⟨by simpa [pairCommit] using ⟨_, rfl⟩, by simp [pairCommit]⟩

/-- One writer, and a term that has no argument row. -/
def oneWriter : List (Event Transaction) :=
  [.prepare genesisCommit, .submit genesisCommit,
    .prepare (pairCommit "t1" ("int", .leaf (.str "x"))),
    .submit (pairCommit "t1" ("int", .leaf (.str "x")))]

/-- **A commit that raises has advanced the head.** -/
theorem Ledger.not_safe_oneWriter :
    Ledger.Schedule pairSeqOf [] oneWriter ∧ ¬Ledger.Safe pairSeqOf [] oneWriter ∧
      (Ledger.after pairSeqOf [] (oneWriter.take 3)).head = some "t0" ∧
      ((Ledger.after pairSeqOf [] (oneWriter.take 3)).commitBatch
        (pairCommit "t1" ("int", .leaf (.str "x"))).1).2 =
          .error (.valueError "int must be int64") ∧
      (Ledger.after pairSeqOf [] oneWriter).head = some "t1" := by
  have hbefore : (Ledger.after pairSeqOf [] (oneWriter.take 3)).head = some "t0" := by
    rfl
  have hraises : ((Ledger.after pairSeqOf [] (oneWriter.take 3)).commitBatch
      (pairCommit "t1" ("int", .leaf (.str "x"))).1).2 =
        .error (.valueError "int must be int64") := by rfl
  have hafter : (Ledger.after pairSeqOf [] oneWriter).head = some "t1" := by rfl
  refine ⟨?_, ?_, hbefore, hraises, hafter⟩
  · refine ⟨⟨?_, 0, ?_, ?_, ?_⟩, List.mem_cons_self, ⟨?_, 1, ?_, ?_, ?_⟩, List.mem_cons_self,
      trivial⟩
    all_goals rfl
  · intro hsafe
    have hsame := hsafe.atomic (oneWriter.take 3) _ [] rfl _ hraises
    have hheads : (Ledger.after pairSeqOf [] oneWriter).head =
        (Ledger.after pairSeqOf [] (oneWriter.take 3)).head := congrArg Ledger.head hsame
    rw [hbefore, hafter] at hheads
    exact absurd (Option.some.inj hheads) (by decide)

end FactGraph.Store
