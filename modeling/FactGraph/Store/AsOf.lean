import FactGraph.Lib.Log
import FactGraph.Store.Stored

/-!
# Metadata as of a boundary

`effective_meta_events(asrt_id, key, as_of)` reads a log: the events of one key of one assertion, each at
its position `(tx_seq, op_ordinal)`. `Ledger.Effective` says what the answer should be — the last event
at or before the boundary, or else the default of the transaction that made the assertion — and
`Ledger.AgreeUpTo` says that two ledgers tell the same story up to the boundary, as a ledger and
the same ledger after a later commit do.

The events of a key that is not kept in memory are read back from its stored rows, all of them,
before the boundary is looked at. A stored text that cannot be read back therefore spoils every
reading of its key, those as of an earlier boundary included.
-/

namespace FactGraph.Store

open Protocol Check Session Indexes

namespace Ledger

/-! ## The order of events -/

/-- `_claim_meta_event_sort_key`. -/
def sortKey (e : MetaEvent) : EventSeq ×ₗ String ×ₗ String :=
  toLex (e.eventSeq, toLex (e.asrtId, e.key.text))

theorem eventLe_iff {e f : MetaEvent} : eventLe e f = true ↔ sortKey e ≤ sortKey f := by
  unfold sortKey
  rw [Prod.Lex.le_iff]
  simp only [ofLex_toLex]
  rw [Prod.Lex.le_iff]
  simp [eventLe]

/-- Sorted events stand in the order of their positions. -/
theorem sorted_sortEvents (events : List MetaEvent) :
    (sortEvents events).Pairwise fun e f => e.eventSeq ≤ f.eventSeq := by
  have htotal : Std.Total fun e f : MetaEvent => eventLe e f = true := ⟨by
    intro e f
    rw [eventLe_iff, eventLe_iff]
    exact le_total _ _⟩
  have htrans : IsTrans MetaEvent fun e f => eventLe e f = true := ⟨by
    intro e f g
    rw [eventLe_iff, eventLe_iff, eventLe_iff]
    exact le_trans⟩
  refine (List.pairwise_insertionSort (fun e f : MetaEvent => eventLe e f = true) events).imp ?_
  intro e f hef
  rw [eventLe_iff] at hef
  exact Prod.Lex.monotone_fst _ _ hef

theorem mem_sortEvents {events : List MetaEvent} {e : MetaEvent} :
    e ∈ sortEvents events ↔ e ∈ events :=
  List.mem_insertionSort _

/-! ## The events of one key -/

section

variable (l : Ledger) (a : String) (k : MetaKey)

/-- The stored rows of a key that is not kept in memory can all be read back. -/
def ReadsBack : Prop :=
  l.isLazy k.text = true → ∀ r ∈ l.tables.claimMeta.rows, r.asrtId = a → r.key = k →
    ∃ e, decodeEvent r = .ok e

/-- The events of one key of one assertion, in memory and in the table. -/
def eventsOf : List MetaEvent :=
  (l.indexes.claimMetaEvents.filter fun e => e.asrtId = a ∧ e.key = k) ++
    (l.lazyRows (some a) (some k)).filterMap fun r => (decodeEvent r).toOption

/-- What the transaction that made an assertion says about a key, if the assertion was made by then. -/
def defaultAt (b : EventSeq) : Option MetaEvent :=
  match l.creationSeq a with
  | none => none
  | some seq =>
      if seq ≤ b then
        ((Dict.get? l.indexes.txMetaDefaultsByTxSeq (ofLex seq).1).bind
          fun defaults => Dict.get? defaults k.text).map fun d =>
            ⟨a, .plain d.key, some (d.kind, d.value), (ofLex seq).1, (ofLex seq).2⟩
      else none

/-- The answer a reading as of a boundary should give. -/
structure Effective (b : EventSeq) (out : List MetaEvent) : Prop where
  last : ∀ e, Log.IsLast MetaEvent.eventSeq b (l.eventsOf a k) e →
    out = if e.isUnset then [] else [e]
  default : (∀ e ∈ l.eventsOf a k, b < e.eventSeq) → out = (l.defaultAt a k b).toList

/-- The reading. -/
def readAsOf (b : EventSeq) : Except StoreErr (List MetaEvent) :=
  l.effectiveMetaEvents (some a) (some k) none (some b)

end

variable {l : Ledger} {a : String} {k : MetaKey} {b : EventSeq}

theorem mem_lazyRows {r : ClaimMetaRow} : r ∈ l.lazyRows (some a) (some k) ↔
    r ∈ l.tables.claimMeta.rows ∧ l.isLazy k.text = true ∧ r.asrtId = a ∧ r.key = k := by
  unfold lazyRows
  rw [List.mem_insertionSort, List.mem_filter]
  simp only [Option.all_some, Bool.and_eq_true, decide_eq_true_eq]
  constructor
  · rintro ⟨hmem, ⟨hlazy, hkey⟩, hid⟩
    exact ⟨hmem, hkey ▸ hlazy, hid, hkey⟩
  · rintro ⟨hmem, hlazy, hid, hkey⟩
    exact ⟨hmem, ⟨hkey ▸ hlazy, hkey⟩, hid⟩

theorem readsBack_iff : l.ReadsBack a k ↔
    ∀ r ∈ l.lazyRows (some a) (some k), ∃ e, decodeEvent r = .ok e := by
  unfold ReadsBack
  constructor
  · intro h r hr
    obtain ⟨hmem, hlazy, hid, hkey⟩ := mem_lazyRows.mp hr
    exact h hlazy r hmem hid hkey
  · intro h hlazy r hmem hid hkey
    exact h r (mem_lazyRows.mpr ⟨hmem, hlazy, hid, hkey⟩)

/-- A row is read back as an event with its id, its key and its position. -/
theorem decodeEvent_ok {r : ClaimMetaRow} {e : MetaEvent} (h : decodeEvent r = .ok e) :
    e.asrtId = r.asrtId ∧ e.key = r.key ∧ e.primaryKey = r.primaryKey := by
  unfold decodeEvent at h
  cases hc : r.cell with
  | none =>
    simp only [hc, Except.ok.injEq] at h
    subst h
    exact ⟨rfl, rfl, rfl⟩
  | some s =>
    cases hv : decodeMetaValue s with
    | error err => simp [hc, hv, Except.map] at h
    | ok value =>
      simp only [hc, hv, Except.map, Except.ok.injEq] at h
      subst h
      exact ⟨rfl, rfl, rfl⟩

theorem mem_eventsOf {e : MetaEvent} : e ∈ l.eventsOf a k ↔
    (e ∈ l.indexes.claimMetaEvents ∧ e.asrtId = a ∧ e.key = k) ∨
      ∃ r ∈ l.lazyRows (some a) (some k), decodeEvent r = .ok e := by
  unfold eventsOf
  rw [List.mem_append, List.mem_filter, List.mem_filterMap, decide_eq_true_eq]
  have htoOption : ∀ r, (decodeEvent r).toOption = some e ↔ decodeEvent r = .ok e := by
    intro r
    cases decodeEvent r <;> simp [Except.toOption]
  simp only [htoOption]

theorem key_of_mem_eventsOf {e : MetaEvent} (h : e ∈ l.eventsOf a k) :
    e.asrtId = a ∧ e.key = k := by
  rcases mem_eventsOf.mp h with ⟨_, hkey⟩ | ⟨r, hr, hdecode⟩
  · exact hkey
  · obtain ⟨_, _, hid, hkey⟩ := mem_lazyRows.mp hr
    obtain ⟨heid, hekey, _⟩ := decodeEvent_ok hdecode
    exact ⟨heid.trans hid, hekey.trans hkey⟩

/-- **No two events of a key share a position.** -/
theorem Sound.eventSeq_injective (hl : l.Sound) : ∀ e ∈ l.eventsOf a k, ∀ f ∈ l.eventsOf a k,
    e.eventSeq = f.eventSeq → e = f := by
  intro e he f hf hseq
  have hpk : e.primaryKey = f.primaryKey := by
    obtain ⟨hei, hek⟩ := key_of_mem_eventsOf he
    obtain ⟨hfi, hfk⟩ := key_of_mem_eventsOf hf
    have hpos : (e.txSeq, e.opOrdinal) = (f.txSeq, f.opOrdinal) := toLex_inj.mp hseq
    simp only [Prod.mk.injEq] at hpos
    simp [MetaEvent.primaryKey, hei, hek, hfi, hfk, hpos]
  -- what is in memory is not lazy, so the two come from the same place
  have hexcl : ∀ {g : MetaEvent} {r : ClaimMetaRow}, g ∈ l.indexes.claimMetaEvents → g.key = k →
      r ∈ l.lazyRows (some a) (some k) → False := by
    intro g r hg hgk hr
    have heager := hl.eager g hg
    rw [hgk, (mem_lazyRows.mp hr).2.1] at heager
    cases heager
  rcases mem_eventsOf.mp he with ⟨he, _, hek⟩ | ⟨r, hr, hre⟩ <;>
    rcases mem_eventsOf.mp hf with ⟨hf, _, hfk⟩ | ⟨s, hs, hsf⟩
  · have hnodup : (l.indexes.claimMetaEvents.map MetaEvent.primaryKey).Nodup :=
      hl.events.nodup l.tables.claimMeta.primary
    exact List.inj_on_of_nodup_map hnodup he hf hpk
  · exact (hexcl he hek hs).elim
  · exact (hexcl hf hfk hr).elim
  · rw [(decodeEvent_ok hre).2.2, (decodeEvent_ok hsf).2.2] at hpk
    have hrs : r = s := List.inj_on_of_nodup_map l.tables.claimMeta.primary
      (mem_lazyRows.mp hr).1 (mem_lazyRows.mp hs).1 hpk
    subst hrs
    rw [hre] at hsf
    exact Except.ok.inj hsf

/-! ## The reading -/

/-- The history of one key, if its rows read back. -/
theorem Sound.metaHistoryEvents (hl : l.Sound) :
    (l.ReadsBack a k → ∃ history, l.metaHistoryEvents (some a) (some k) = .ok history ∧
      ∀ e, e ∈ history ↔ e ∈ l.eventsOf a k) ∧
    (∀ history, l.metaHistoryEvents (some a) (some k) = .ok history → l.ReadsBack a k) := by
  unfold Ledger.metaHistoryEvents Ledger.lazyMetaEvents
  constructor
  · intro hback
    obtain ⟨es, hes⟩ := exists_mapOk (readsBack_iff.mp hback)
    refine ⟨_, by rw [hes]; rfl, ?_⟩
    intro e
    have heager : l.eagerMetaEvents (some a) (some k) =
        l.indexes.claimMetaEvents.filter fun e => (e.asrtId, e.key) = (a, k) := by
      have h := hl.coherent.eventsByIdKey (a, k)
      rw [List.map_id] at h
      exact h
    rw [mem_sortEvents, List.mem_append, heager, mem_eventsOf, List.mem_filter]
    simp only [Prod.mk.injEq, decide_eq_true_eq]
    have hlazy : e ∈ es ↔ ∃ r ∈ l.lazyRows (some a) (some k), decodeEvent r = .ok e := by
      constructor
      · exact fun he => mem_of_mapOk hes he
      · rintro ⟨r, hr, hre⟩
        obtain ⟨f, hf, hrf⟩ := image_of_mapOk hes hr
        rw [hre] at hrf
        exact Except.ok.inj hrf ▸ hf
    rw [hlazy]
  · intro history h
    obtain ⟨es, hes, _⟩ := bind_ok_iff.mp h
    rw [readsBack_iff]
    intro r hr
    obtain ⟨e, _, he⟩ := image_of_mapOk hes hr
    exact ⟨e, he⟩

/-- The last event of every key, where there is one key: the last event. -/
theorem latestOf_of_key {history : List MetaEvent}
    (h : ∀ e ∈ history, e.asrtId = a ∧ e.key = k) :
    latestOf (some b) history =
      (Log.upTo MetaEvent.eventSeq b history).getLast?.toList.map fun e => ((a, k), e) := by
  unfold latestOf
  have hupTo : history.filter (fun e => (some b).all (e.eventSeq ≤ ·)) =
      Log.upTo MetaEvent.eventSeq b history := by
    unfold Log.upTo
    simp only [Option.all_some]
  rw [hupTo]
  have hkeys : ∀ e ∈ Log.upTo MetaEvent.eventSeq b history, e.asrtId = a ∧ e.key = k :=
    fun e he => h e (Log.mem_upTo.mp he).1
  generalize Log.upTo MetaEvent.eventSeq b history = es at hkeys
  -- every event takes the place of the one before it
  induction es using List.reverseRecOn with
  | nil => rfl
  | append_singleton es e ih =>
    obtain ⟨hid, hkey⟩ := hkeys e (by simp)
    rw [List.foldl_append, ih fun f hf => hkeys f (by simp [hf])]
    cases es.getLast? <;> simp [Dict.set, hid, hkey]

/-- What an assertion inherits under one key. -/
theorem Sound.inherited_of_key (hl : l.Sound) (last : Option MetaEvent) :
    l.inherited (last.toList.map fun e => ((a, k), e)) (some k) none (some b) a =
      if last.isSome then [] else (l.defaultAt a k b).toList := by
  unfold inherited defaultAt
  cases hseq : l.creationSeq a with
  | none => simp
  | some seq =>
    simp only [Option.all_some, decide_eq_true_eq]
    by_cases hle : seq ≤ b
    · rw [if_pos hle, if_pos hle]
      unfold defaultsFor
      cases hds : Dict.get? l.indexes.txMetaDefaultsByTxSeq (ofLex seq).1 with
      | none => simp
      | some defaults =>
        cases hd : Dict.get? defaults k.text with
        | none => simp [hd]
        | some d =>
          have hkey : d.key = k.text := (hl.defaults _ defaults hds _ d hd).2
          cases last <;> simp [hd, hkey]
    · rw [if_neg hle, if_neg hle]
      simp

/-- **A reading of a key that reads back is the one it should be.** -/
theorem Sound.effective (hl : l.Sound) (hback : l.ReadsBack a k) :
    ∃ out, l.readAsOf a k b = .ok out ∧ l.Effective a k b out := by
  obtain ⟨history, hhistory, hmem⟩ := hl.metaHistoryEvents.1 hback
  have hsorted : history.Pairwise fun e f => e.eventSeq ≤ f.eventSeq := by
    obtain ⟨es, _, h⟩ := bind_ok_iff.mp hhistory
    rw [← Except.ok.inj h]
    exact sorted_sortEvents _
  have hkeys : ∀ e ∈ history, e.asrtId = a ∧ e.key = k :=
    fun e he => key_of_mem_eventsOf ((hmem e).mp he)
  have hinj : ∀ e ∈ history, ∀ f ∈ history, e.eventSeq = f.eventSeq → e = f :=
    fun e he f hf => hl.eventSeq_injective e ((hmem e).mp he) f ((hmem f).mp hf)
  have hread : l.readAsOf a k b = .ok (sortEvents
      ((Log.upTo MetaEvent.eventSeq b history).getLast?.toList.filter (fun e => !e.isUnset) ++
        if (Log.upTo MetaEvent.eventSeq b history).getLast?.isSome then []
        else (l.defaultAt a k b).toList)) := by
    unfold readAsOf effectiveMetaEvents
    rw [hhistory, ok_bind]
    simp only [latestOf_of_key hkeys, List.flatMap_cons, List.flatMap_nil, List.append_nil,
      hl.inherited_of_key, List.map_map, Function.comp_def, List.map_id']
    congr 4
    funext e
    cases hc : e.cell <;> simp [MetaEvent.isUnset, hc]
  refine ⟨_, hread, ?_, ?_⟩
  · intro e he
    have he' : Log.IsLast MetaEvent.eventSeq b history e :=
      (Log.isLast_congr fun f _ => hmem f).mpr he
    rw [Log.getLast?_upTo hsorted hinj he']
    cases hu : e.isUnset <;> simp [hu, sortEvents]
  · intro hafter
    have hnil : Log.upTo MetaEvent.eventSeq b history = [] :=
      Log.upTo_eq_nil_iff.mpr fun e he => hafter e ((hmem e).mp he)
    rw [hnil]
    cases l.defaultAt a k b <;> simp [sortEvents]

theorem Sound.readsBack_of_ok (hl : l.Sound) {out : List MetaEvent}
    (h : l.readAsOf a k b = .ok out) : l.ReadsBack a k := by
  unfold readAsOf effectiveMetaEvents at h
  obtain ⟨history, hhistory, _⟩ := bind_ok_iff.mp h
  exact hl.metaHistoryEvents.2 history hhistory

/-! ## Ledgers that agree up to a boundary -/

/-- Two ledgers that tell the same story up to a boundary. -/
structure AgreeUpTo (b : EventSeq) (l l' : Ledger) : Prop where
  lazyMetaKeys : l'.lazyMetaKeys = l.lazyMetaKeys
  events : ∀ e, e.eventSeq ≤ b →
    (e ∈ l'.indexes.claimMetaEvents ↔ e ∈ l.indexes.claimMetaEvents)
  rows : ∃ ms, l'.tables.claimMeta.rows = l.tables.claimMeta.rows ++ ms ∧
    ∀ r ∈ ms, b < toLex (r.txSeq, r.opOrdinal)
  created : ∀ a seq, seq ≤ b → (l'.creationSeq a = some seq ↔ l.creationSeq a = some seq)
  defaults : l'.indexes.txMetaDefaultsByTxSeq = l.indexes.txMetaDefaultsByTxSeq

theorem AgreeUpTo.refl (b : EventSeq) (l : Ledger) : AgreeUpTo b l l :=
  ⟨rfl, fun _ _ => Iff.rfl, ⟨[], by simp⟩, fun _ _ _ => Iff.rfl, rfl⟩

theorem AgreeUpTo.trans {l l' l'' : Ledger} (h : AgreeUpTo b l l') (h' : AgreeUpTo b l' l'') :
    AgreeUpTo b l l'' where
  lazyMetaKeys := h'.lazyMetaKeys.trans h.lazyMetaKeys
  events e he := (h'.events e he).trans (h.events e he)
  rows := by
    obtain ⟨ms, hms, hafter⟩ := h.rows
    obtain ⟨ms', hms', hafter'⟩ := h'.rows
    refine ⟨ms ++ ms', by rw [hms', hms, List.append_assoc], ?_⟩
    intro r hr
    rcases List.mem_append.mp hr with hr | hr
    · exact hafter r hr
    · exact hafter' r hr
  created a seq hle := (h'.created a seq hle).trans (h.created a seq hle)
  defaults := h'.defaults.trans h.defaults

variable {l' : Ledger}

theorem AgreeUpTo.isLazy (h : AgreeUpTo b l l') (key : String) :
    l'.isLazy key = l.isLazy key := by
  unfold Ledger.isLazy
  rw [h.lazyMetaKeys]

theorem AgreeUpTo.readsBack (h : AgreeUpTo b l l') (hback : l'.ReadsBack a k) :
    l.ReadsBack a k := by
  intro hlazy r hr hid hkey
  obtain ⟨ms, hms, _⟩ := h.rows
  rw [← h.isLazy] at hlazy
  exact hback hlazy r (by rw [hms]; exact List.mem_append_left _ hr) hid hkey

theorem AgreeUpTo.eventsOf (h : AgreeUpTo b l l') {e : MetaEvent} (he : e.eventSeq ≤ b) :
    e ∈ l'.eventsOf a k ↔ e ∈ l.eventsOf a k := by
  rw [mem_eventsOf, mem_eventsOf, h.events e he]
  apply or_congr_right
  obtain ⟨ms, hms, hafter⟩ := h.rows
  constructor
  · rintro ⟨r, hr, hre⟩
    obtain ⟨hmem, hlazy, hid, hkey⟩ := mem_lazyRows.mp hr
    rw [hms] at hmem
    rw [h.isLazy] at hlazy
    rcases List.mem_append.mp hmem with hmem | hmem
    · exact ⟨r, mem_lazyRows.mpr ⟨hmem, hlazy, hid, hkey⟩, hre⟩
    · -- a later row is not read back as an event this early
      have hpk := (decodeEvent_ok hre).2.2
      simp only [MetaEvent.primaryKey, ClaimMetaRow.primaryKey, Prod.mk.injEq] at hpk
      have hlt := hafter r hmem
      rw [← hpk.2.2.1, ← hpk.2.2.2] at hlt
      exact absurd he (not_le.mpr hlt)
  · rintro ⟨r, hr, hre⟩
    obtain ⟨hmem, hlazy, hid, hkey⟩ := mem_lazyRows.mp hr
    rw [← h.isLazy] at hlazy
    exact ⟨r, mem_lazyRows.mpr ⟨by rw [hms]; exact List.mem_append_left _ hmem, hlazy, hid, hkey⟩,
      hre⟩

theorem AgreeUpTo.defaultAt (h : AgreeUpTo b l l') : l'.defaultAt a k b = l.defaultAt a k b := by
  unfold Ledger.defaultAt
  rw [h.defaults]
  cases hseq : l.creationSeq a with
  | none =>
    cases hseq' : l'.creationSeq a with
    | none => rfl
    | some seq =>
      have hnot : ¬seq ≤ b := by
        intro hle
        rw [(h.created a seq hle).mp hseq'] at hseq
        cases hseq
      simp [hnot]
  | some seq =>
    by_cases hle : seq ≤ b
    · rw [(h.created a seq hle).mpr hseq]
    · cases hseq' : l'.creationSeq a with
      | none => simp [hle]
      | some seq' =>
        have hnot : ¬seq' ≤ b := by
          intro hle'
          rw [(h.created a seq' hle').mp hseq', Option.some.injEq] at hseq
          exact hle (hseq ▸ hle')
        simp [hle, hnot]

/-- What the reading should be is decided up to the boundary. -/
theorem AgreeUpTo.effective (h : AgreeUpTo b l l') {out : List MetaEvent}
    (hout : l'.Effective a k b out) : l.Effective a k b out where
  last e he := hout.last e ((Log.isLast_congr fun _ hf => h.eventsOf hf).mpr he)
  default hafter := by
    rw [← h.defaultAt]
    apply hout.default
    intro e he
    by_contra hle
    exact absurd (hafter e ((h.eventsOf (not_lt.mp hle)).mp he)) hle

/-- There is one answer a reading should give. -/
theorem Effective.unique {out out' : List MetaEvent} (h : l.Effective a k b out)
    (h' : l.Effective a k b out') : out = out' := by
  by_cases hafter : ∀ e ∈ l.eventsOf a k, b < e.eventSeq
  · rw [h.default hafter, h'.default hafter]
  · -- the events up to the boundary are finitely many: one of them is last
    have hne : Log.upTo MetaEvent.eventSeq b (sortEvents (l.eventsOf a k)) ≠ [] := by
      rw [Ne, Log.upTo_eq_nil_iff]
      simpa only [mem_sortEvents] using hafter
    obtain ⟨e, he⟩ := Option.ne_none_iff_exists'.mp (mt List.getLast?_eq_none_iff.mp hne)
    have hlast := Log.isLast_of_getLast? (sorted_sortEvents _) he
    have hlast' : Log.IsLast MetaEvent.eventSeq b (l.eventsOf a k) e :=
      (Log.isLast_congr fun f _ => mem_sortEvents).mp hlast
    rw [h.last e hlast', h'.last e hlast']

end Ledger

/-! ## Later commits -/

/-- The commit comes after the boundary. -/
def Batch.After (bound : EventSeq) (b : Batch) : Prop := ∀ n, b.txSeq = .ok n → (ofLex bound).1 < n

/-- A write leaves the events there were, and adds events of its own transaction. -/
theorem Indexes.stable_later (isLazy : String → Bool) (n : Nat) (ids : String → Prop)
    (m₀ : Indexes) : Stable isLazy n ids
      fun m => ∀ e ∈ m.claimMetaEvents, e ∈ m₀.claimMetaEvents ∨ e.txSeq = n where
  addClaim _ _ hm := hm
  addClaimArg _ _ hm := hm
  addSystemClaim _ _ hm := hm
  setTxRef _ _ _ hm := hm
  setOpOrdinal _ _ _ _ hm := hm
  addMetaEvent m e _ hn hm := by
    intro f hf
    rcases List.mem_append.mp hf with hf | hf
    · exact hm f hf
    · rw [List.mem_singleton.mp hf]
      exact .inr hn
  addMetaRow _ _ _ hm := hm
  addAnnotationRow m row _ hm := by
    unfold addAnnotationRow
    cases Dict.get? m.annoByIdentity row.slot <;> exact hm
  idxAddRevoke _ _ hm := hm

namespace Ledger

variable {l : Ledger} {a : String} {k : MetaKey} {bound : EventSeq}

theorem lt_of_after {n op : Nat} (h : (ofLex bound).1 < n) : bound < toLex (n, op) :=
  Prod.Lex.lt_iff.mpr (.inl h)

theorem creationSeq_eq_some_iff {seq : EventSeq} : l.creationSeq a = some seq ↔
    ∃ tx op, Dict.get? l.indexes.claimTxRefs a = some tx ∧
      Dict.get? l.indexes.claimOpOrdinals a = some op ∧ toLex (tx, op) = seq := by
  unfold creationSeq
  simp [Option.bind_eq_some_iff]

/-- Placing new ids after the boundary leaves the positions up to it. -/
theorem creationSeq_of_placed {l l' : Ledger} {n : Nat} {ids : String → Prop}
    (h : Placed n ids l.indexes l'.indexes)
    (hnew : ∀ a, ids a → Dict.get? l.indexes.claimTxRefs a = none) (hn : (ofLex bound).1 < n)
    {seq : EventSeq} (hle : seq ≤ bound) :
    l'.creationSeq a = some seq ↔ l.creationSeq a = some seq := by
  rw [creationSeq_eq_some_iff, creationSeq_eq_some_iff]
  constructor
  · rintro ⟨tx, op, htx, hop, rfl⟩
    rcases h.txRefs a with hsame | ⟨_, hplaced⟩
    · rw [hsame] at htx
      have hold : ¬ids a := by
        intro hid
        rw [hnew a hid] at htx
        cases htx
      exact ⟨tx, op, htx, h.opOrdinals a hold ▸ hop, rfl⟩
    · rw [hplaced, Option.some.injEq] at htx
      exact absurd hle (not_le.mpr (lt_of_after (htx ▸ hn)))
  · rintro ⟨tx, op, htx, hop, rfl⟩
    have hold : ¬ids a := by
      intro hid
      rw [hnew a hid] at htx
      cases htx
    rcases h.txRefs a with hsame | ⟨hid, _⟩
    · exact ⟨tx, op, hsame ▸ htx, (h.opOrdinals a hold).symm ▸ hop, rfl⟩
    · exact absurd hid hold

/-- **A later commit changes nothing up to the boundary**, however it ends. -/
theorem Sound.agree_commitBatch (hl : l.Sound) {b : Batch} (hb : b.After bound) :
    AgreeUpTo bound l (l.commitBatch b).1 := by
  by_cases hcommits : l.Commits b
  · obtain ⟨n, t, hook, hcheck, hbody⟩ := hcommits
    rw [commitBatch_of_commits hcheck hbody]
    have hn : (ofLex bound).1 < n := hb n (Batch.check_ok hcheck).1
    obtain ⟨cs, hw⟩ := Batch.writes_commitBody hcheck hbody
    obtain ⟨ms, hgrown, _⟩ := hw.tables
    obtain ⟨d, _, hlists, _⟩ := hw.adds l.indexes
    refine ⟨rfl, ?_, ⟨ms, hgrown.claimMeta, ?_⟩, ?_, hlists.defaults⟩
    · intro e he
      have hlater := hw.keeps (fun _ => True) _ (stable_later l.isLazy n _ l.indexes)
        (fun _ _ => trivial) l.indexes (fun e he => .inl he)
      constructor
      · intro hmem
        rcases hlater e hmem with hold | hnew
        · exact hold
        · have hlt : bound < e.eventSeq := lt_of_after (hnew ▸ hn)
          exact absurd he (not_le.mpr hlt)
      · intro hmem
        show e ∈ (hook l.indexes).1.claimMetaEvents
        rw [hlists.events]
        exact List.mem_append_left _ hmem
    · intro r hr
      rw [hgrown.txSeqs r hr]
      exact lt_of_after hn
    · intro a seq hle
      have hplaced := hw.keeps _ _ (stable_placed l.isLazy n _ l.indexes)
        (fun c hc => List.mem_map_of_mem hc) _ (Placed.refl n _ l.indexes)
      refine creationSeq_of_placed hplaced ?_ hn hle
      -- an id the commit places is new to the table, so the indexes do not know it
      intro x hx
      cases htx : Dict.get? l.indexes.claimTxRefs x with
      | none => rfl
      | some m =>
        obtain ⟨rows, hrows, hof⟩ := hgrown.claims
        have hunique := t.claims.unique
        rw [hrows, List.map_append, rows_asrtId hof] at hunique
        exact absurd rfl ((List.nodup_append.mp hunique).2.2 x (hl.placed x m htx) x hx)
  · obtain ⟨e, he⟩ := commitBatch_of_refused hcommits
    rw [he]
    exact AgreeUpTo.refl bound l

/-- The ledger after a list of commits. -/
def commits (l : Ledger) (bs : List Batch) : Ledger := bs.foldl (fun l b => (l.commitBatch b).1) l

theorem Sound.agree_commits (hl : l.Sound) {bs : List Batch} (hbs : ∀ b ∈ bs, b.After bound) :
    AgreeUpTo bound l (l.commits bs) ∧ (l.commits bs).Sound := by
  induction bs generalizing l with
  | nil => exact ⟨AgreeUpTo.refl bound l, hl⟩
  | cons b bs ih =>
    have hstep := hl.agree_commitBatch (hbs b List.mem_cons_self)
    obtain ⟨hrest, hsound⟩ := ih (hl.step (Batch.step_commitBatch l b))
      fun c hc => hbs c (List.mem_cons_of_mem b hc)
    exact ⟨hstep.trans hrest, hsound⟩

end Ledger

/-! ## What reads back -/

variable {a : String} {k : MetaKey}

/-- The value of an appended row, once written, can be read back. -/
def MetaAppend.ReadsBack : MetaAppend → Prop
  | .row r => ∀ s, encodeMetaValue r.kind r.value = .ok s → ∃ value, decodeMetaValue s = .ok value
  | .unset _ => True

/-- All a commit writes under one key can be read back, if that is ever needed. -/
def Batch.ReadsBack (isLazy : String → Bool) (a : String) (k : MetaKey) (b : Batch) : Prop :=
  isLazy k.text = true → ∀ w ∈ b.metaWrites, w.1.asrtId = a → w.1.key = k → w.1.ReadsBack

theorem ClaimMetaRow.Stores.readsBack_iff {n : Nat} {r : ClaimMetaRow} {w : MetaAppend × Nat}
    (h : r.Stores n w) : (r.asrtId = a → r.key = k → ∃ e, Ledger.decodeEvent r = .ok e) ↔
      (w.1.asrtId = a → w.1.key = k → w.1.ReadsBack) := by
  obtain ⟨w, op⟩ := w
  unfold ClaimMetaRow.Stores at h
  obtain ⟨_, _, hkey, hid⟩ := Tables.encodeAppend_key h
  rw [hid, hkey]
  apply imp_congr_right
  intro _
  apply imp_congr_right
  intro _
  cases w with
  | unset u =>
    cases h
    exact ⟨fun _ => trivial, fun _ => ⟨_, rfl⟩⟩
  | row row =>
    unfold encodeAppend at h
    show _ ↔ ∀ s, encodeMetaValue row.kind row.value = .ok s → _
    cases hs : encodeMetaValue row.kind row.value with
    | error e => simp [hs, Except.map] at h
    | ok s =>
      simp only [hs, Except.map, Except.ok.injEq] at h
      subst h
      unfold Ledger.decodeEvent
      cases hv : decodeMetaValue s <;> simp [hv, Except.map]

namespace Ledger

variable {l : Ledger} {bound : EventSeq}

/-- **A commit keeps a key readable** exactly if what it writes under the key is readable. -/
theorem readsBack_commitBatch (b : Batch) : (l.commitBatch b).1.ReadsBack a k ↔
    l.ReadsBack a k ∧ (l.Commits b → b.ReadsBack l.isLazy a k) := by
  by_cases hcommits : l.Commits b
  · obtain ⟨n, t, hook, hcheck, hbody⟩ := hcommits
    rw [commitBatch_of_commits hcheck hbody]
    obtain ⟨ms, hms, hof⟩ := Batch.metaRows_of_commitBody hcheck hbody
    have hnew := forall_iff_of_forall₂ hof fun r w h => h.readsBack_iff (a := a) (k := k)
    have hwritten : l.Commits b := ⟨n, t, hook, hcheck, hbody⟩
    unfold Ledger.ReadsBack Batch.ReadsBack
    show (l.isLazy k.text = true → ∀ r ∈ t.claimMeta.rows, _) ↔ _
    rw [hms, List.forall_mem_append, hnew, imp_and]
    simp only [hwritten, true_imp_iff]
  · obtain ⟨e, he⟩ := commitBatch_of_refused hcommits
    simp [he, hcommits]

/-- All that the commits that go through write under one key can be read back. -/
def AllReadBack (a : String) (k : MetaKey) : Ledger → List Batch → Prop
  | _, [] => True
  | l, b :: bs => (l.Commits b → b.ReadsBack l.isLazy a k) ∧ AllReadBack a k (l.commitBatch b).1 bs

theorem readsBack_commits {bs : List Batch} :
    (l.commits bs).ReadsBack a k ↔ l.ReadsBack a k ∧ AllReadBack a k l bs := by
  induction bs generalizing l with
  | nil => simp [commits, AllReadBack]
  | cons b bs ih =>
    unfold AllReadBack
    show ((l.commitBatch b).1.commits bs).ReadsBack a k ↔ _
    rw [ih, readsBack_commitBatch, and_assoc]

/-! ## Time travel -/

/-- **Metadata as of a boundary.** A reading is the last event at or before the boundary or the
default of the transaction, and stays so under every later commit, exactly if the key is kept in
memory or all that was and is written under it can be read back. -/
theorem readAsOf_stable_iff (h : l.Reachable) {bs : List Batch} (hbs : ∀ b ∈ bs, b.After bound) :
    ((∃ out, l.readAsOf a k bound = .ok out ∧ l.Effective a k bound out) ∧
        (l.commits bs).readAsOf a k bound = l.readAsOf a k bound) ↔
      l.ReadsBack a k ∧ AllReadBack a k l bs := by
  have hl := h.sound
  obtain ⟨hagree, hl'⟩ := hl.agree_commits hbs
  rw [← readsBack_commits]
  constructor
  · rintro ⟨⟨out, hread, _⟩, hsame⟩
    exact hl'.readsBack_of_ok (hsame.trans hread)
  · intro hback
    obtain ⟨out, hread, heffective⟩ := hl.effective (hagree.readsBack hback)
    obtain ⟨out', hread', heffective'⟩ := hl'.effective hback
    refine ⟨⟨out, hread, heffective⟩, ?_⟩
    rw [hread', hread, (hagree.effective heffective').unique heffective]

/-- Transaction 1 makes an assertion with a detail. -/
def detailCommit : Batch where
  assertions := [⟨⟨"a1", "person:age", "idref_v1:alice", [("int", .leaf (.int 30))]⟩,
    [⟨"a1", 0, .int 30, "int"⟩], [⟨"a1", .plain "detail", "str", .leaf (.str "x")⟩], []⟩]
  expectedHeadTxId := none
  headTxId := "t1"
  metadata := [("head_tx_seq", "1")]

/-- Transaction 2 sets the detail to a document that looks like stored bytes and is not. -/
def bytesLikeCommit : Batch where
  expectedHeadTxId := some "t1"
  headTxId := "t2"
  metadata := [("head_tx_seq", "2")]
  metaAppends := [.row ⟨"a1", .plain "detail", "json", .obj [(jsonBytesKey, .leaf (.str "A"))]⟩]

/-- The ledger after transaction 1, which keeps the metadata of some keys out of memory. -/
def detailed (lazyKeys : List String) : Ledger := (Ledger.opened lazyKeys).commits [detailCommit]

/-- A detail kept in memory can be read as of transaction 1, whatever is committed later. -/
theorem readAsOf_detailed :
    ((detailed []).commits [bytesLikeCommit]).readAsOf "a1" (.plain "detail") (toLex (1, 9)) =
      (detailed []).readAsOf "a1" (.plain "detail") (toLex (1, 9)) := by
  have hreachable : (detailed []).Reachable := ⟨[], [.commit detailCommit], rfl⟩
  have hafter : ∀ b ∈ [bytesLikeCommit], b.After (toLex (1, 9)) := by
    intro b hb n hn
    rw [List.mem_singleton.mp hb] at hn
    have hseq : bytesLikeCommit.txSeq = .ok 2 := by rfl
    rw [hseq] at hn
    cases hn
    decide
  have hlazy : ¬(detailed []).isLazy "detail" = true := by decide +kernel
  refine ((readAsOf_stable_iff hreachable hafter).mpr ⟨?_, ?_, trivial⟩).2
  · intro h
    exact absurd h hlazy
  · intro _ h
    exact absurd h hlazy

/-- **A later commit spoils an earlier reading** of a key that is not kept in memory. -/
theorem readAsOf_spoilt :
    (detailed ["detail"]).readAsOf "a1" (.plain "detail") (toLex (1, 9)) =
        .ok [⟨"a1", .plain "detail", some ("str", .leaf (.str "x")), 1, 0⟩] ∧
      ((detailed ["detail"]).commitBatch bytesLikeCommit).2 = .ok () ∧
      ((detailed ["detail"]).commits [bytesLikeCommit]).readAsOf "a1" (.plain "detail")
          (toLex (1, 9)) =
        .error (.ledgerFormat "invalid claim_meta 'json' value encoding") := by
  refine ⟨?_, ?_, ?_⟩
  all_goals rfl

end Ledger

end FactGraph.Store
