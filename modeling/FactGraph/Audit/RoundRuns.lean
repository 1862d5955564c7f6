import FactGraph.Audit.Rounds

/-!
# Runs of recorders

`finalize` puts the new events file in place before it looks at the manifest. So a manifest that is
missing, that is not the one of an audit package, or that cannot be replaced makes it raise with the
round already in the file, while the recorder reports the round as not finalised (the second case of
`step_finalize_cases`).

In a run in which no `finalize` gets so far and then meets such a manifest, a call that raises changes
nothing, and the file has for each round what the last recorder to finalise it has, and what it had
before for every other round (`rounds_all_or_nothing`).
-/

namespace FactGraph.Audit

open Protocol Store Codec Check

/-! ## Events -/

theorem RoundEvent.make_ok {roundId kind schemaVersion : String} {sequence eventTs : Nat}
    {payload : Except RoundErr (List (String × Json))} {e : RoundEvent}
    (h : RoundEvent.make roundId sequence eventTs kind schemaVersion payload = .ok e) :
    e.roundId = roundId ∧ e.sequence = sequence ∧ e.kind = kind ∧ e.schemaVersion = schemaVersion := by
  unfold RoundEvent.make at h
  split at h
  · split at h
    · split at h
      · cases payload with
        | error err => cases h
        | ok fs =>
          cases h
          exact ⟨rfl, rfl, rfl, rfl⟩
      · cases h
    · cases h
  · cases h

theorem rowNatural_natural (fieldName : String) (n : Nat) :
    rowNatural fieldName (some (.leaf (.int n))) = .ok n := by
  simp [rowNatural]

/-- An event of the first schema version is read back from its row. -/
theorem roundEventFromRow_toRow {e : RoundEvent} (h : e.schemaVersion = roundEventSchemaVersion) :
    roundEventFromRow (roundEventToRow e) = .ok e := by
  have hversion : isFutureVersion roundEventSchemaVersion = false := by decide
  obtain ⟨roundId, sequence, eventTs, kind, schemaVersion, payload, hround, hkind, hschema⟩ := e
  subst h
  simp [roundEventFromRow, roundEventToRow, Dict.get?, rowText, rowNatural_natural, hversion,
    RoundEvent.make, hround, hkind, hschema, Except.map, bind, Except.bind]

theorem isOf_toRow (roundId : String) (e : RoundEvent) :
    isOf roundId (roundEventToRow e) = decide (e.roundId = roundId) := by
  simp [isOf, roundEventToRow, Dict.get?]

theorem roundEventFromRow_rows {events : List RoundEvent}
    (h : ∀ e ∈ events, e.schemaVersion = roundEventSchemaVersion) :
    mapOk roundEventFromRow (events.map roundEventToRow) = .ok events := by
  rw [mapOk_ok_iff, List.forall₂_map_left_iff, List.forall₂_same]
  exact fun e he => roundEventFromRow_toRow (h e he)

/-! ## Recorders -/

/-- What is common to the events of a recorder. -/
structure Recorded (roundId : String) (events : List RoundEvent) : Prop where
  ids : ∀ e ∈ events, e.roundId = roundId
  versions : ∀ e ∈ events, e.schemaVersion = roundEventSchemaVersion
  sequences : events.map (·.sequence) = List.range events.length

/-- A kind that `record` takes. -/
def IsCapability (e : RoundEvent) : Prop := e.kind ∈ roundEventKinds ∧ e.kind ∉ lifecycleKinds

/-- The events of a round that is going on. -/
structure Ongoing (roundId : String) (events : List RoundEvent) : Prop
    extends Recorded roundId events where
  shape : ∃ first middle, events = first :: middle ∧ first.kind = "round_started" ∧
    ∀ e ∈ middle, IsCapability e

/-- The events of a round that is over. -/
structure Complete (roundId : String) (events : List RoundEvent) : Prop
    extends Recorded roundId events where
  shape : ∃ first middle last, events = first :: middle ++ [last] ∧ first.kind = "round_started" ∧
    last.kind = "round_finalized" ∧ ∀ e ∈ middle, IsCapability e

/-- What holds of a recorder between calls. -/
inductive WellRecorded (r : RoundRecorder) : Prop where
  | fresh (started : r.started = false) (finalized : r.finalized = false) (events : r.events = [])
  | ongoing (started : r.started = true) (finalized : r.finalized = false)
      (events : Ongoing r.roundId r.events)
  | complete (started : r.started = true) (finalized : r.finalized = true)
      (events : Complete r.roundId r.events)

theorem Recorded.snoc {roundId : String} {events : List RoundEvent} {e : RoundEvent}
    (h : Recorded roundId events) (hid : e.roundId = roundId)
    (hversion : e.schemaVersion = roundEventSchemaVersion) (hsequence : e.sequence = events.length) :
    Recorded roundId (events ++ [e]) := by
  refine ⟨?_, ?_, ?_⟩
  · intro d hd
    rcases List.mem_append.mp hd with hd | hd
    · exact h.ids d hd
    · rw [List.mem_singleton.mp hd, hid]
  · intro d hd
    rcases List.mem_append.mp hd with hd | hd
    · exact h.versions d hd
    · rw [List.mem_singleton.mp hd, hversion]
  · rw [List.map_append, h.sequences, List.length_append, List.length_singleton, List.range_succ]
    simp [hsequence]

theorem Ongoing.snoc_capability {roundId : String} {events : List RoundEvent} {e : RoundEvent}
    (h : Ongoing roundId events) (hid : e.roundId = roundId)
    (hversion : e.schemaVersion = roundEventSchemaVersion) (hsequence : e.sequence = events.length)
    (hkind : IsCapability e) : Ongoing roundId (events ++ [e]) := by
  obtain ⟨first, middle, hevents, hfirst, hmiddle⟩ := h.shape
  refine ⟨h.toRecorded.snoc hid hversion hsequence, first, middle ++ [e], ?_, hfirst, ?_⟩
  · rw [hevents, List.cons_append]
  · intro d hd
    rcases List.mem_append.mp hd with hd | hd
    · exact hmiddle d hd
    · rw [List.mem_singleton.mp hd]
      exact hkind

theorem Ongoing.snoc_final {roundId : String} {events : List RoundEvent} {e : RoundEvent}
    (h : Ongoing roundId events) (hid : e.roundId = roundId)
    (hversion : e.schemaVersion = roundEventSchemaVersion) (hsequence : e.sequence = events.length)
    (hkind : e.kind = "round_finalized") : Complete roundId (events ++ [e]) := by
  obtain ⟨first, middle, hevents, hfirst, hmiddle⟩ := h.shape
  exact ⟨h.toRecorded.snoc hid hversion hsequence, first, middle, e, by rw [hevents], hfirst, hkind,
    hmiddle⟩

/-- A round that is over has been finalised, without a gap. -/
theorem Complete.summary {roundId : String} {events : List RoundEvent}
    (h : Complete roundId events) : (summarizeRoundEvents roundId events).isFinalized = true ∧
      (summarizeRoundEvents roundId events).sequenceGaps = [] := by
  obtain ⟨first, middle, last, hevents, hfirst, hlast, -⟩ := h.shape
  constructor
  · have hmem : last ∈ events.filter (·.kind == "round_finalized") := by
      rw [List.mem_filter, hevents]
      simp [hlast]
    show ((events.filter (·.kind == "round_finalized")).getLast?).isSome = true
    rw [List.getLast?_isSome]
    exact List.ne_nil_of_mem hmem
  · show gapsOf (events.map (·.sequence)) = []
    rw [h.sequences]
    have hsorted : (List.range events.length).insertionSort (· ≤ ·) = List.range events.length :=
      (List.pairwise_le_range).insertionSort_eq
    unfold gapsOf
    rw [hsorted]
    cases hlength : events.length with
    | zero => rfl
    | succ n =>
      have hhead : (List.range (n + 1)).head? = some 0 := by simp [List.head?_range]
      have hlast : (List.range (n + 1)).getLast? = some n := by simp [List.getLast?_range]
      simp only [hhead, hlast, List.filter_eq_nil_iff, List.mem_map, List.mem_range]
      rintro _ ⟨m, hm, rfl⟩
      have hbelow : m < n + 1 := by omega
      simp [hbelow]

theorem WellRecorded.start {r r' : RoundRecorder} {now : Nat} {eventTs : Option Int}
    (hr : WellRecorded r) (h : r.start now eventTs = .ok r') :
    WellRecorded r' ∧ r'.finalized = false ∧ r.finalized = false := by
  unfold RoundRecorder.start at h
  obtain ⟨hstarted, h⟩ := bind_unit_ok_iff.mp h
  obtain ⟨timestamp, -, h⟩ := bind_ok_iff.mp h
  obtain ⟨event, hevent, h⟩ := bind_ok_iff.mp h
  cases h
  obtain ⟨hid, hsequence, hkind, hversion⟩ := RoundEvent.make_ok hevent
  cases hr with
  | fresh started finalized events =>
    refine ⟨.ongoing rfl finalized ⟨⟨?_, ?_, ?_⟩, event, [], ?_, hkind, ?_⟩, finalized, finalized⟩
    · intro e he
      rw [events, List.nil_append, List.mem_singleton] at he
      rw [he, hid]
    · intro e he
      rw [events, List.nil_append, List.mem_singleton] at he
      rw [he, hversion]
    · simp [events, hsequence]
    · simp [events]
    · simp
  | ongoing started finalized events => simp [started] at hstarted
  | complete started finalized events => simp [started] at hstarted

theorem WellRecorded.record {K : Type} {texts : KeyTexts K} {r r' : RoundRecorder} {now : Nat}
    {kind : String} {payload : List (Key K × PyObj K)} {eventTs : Option Int}
    (hr : WellRecorded r) (h : r.record texts now kind payload eventTs = .ok r') :
    WellRecorded r' ∧ r'.finalized = false ∧ r.finalized = false := by
  unfold RoundRecorder.record at h
  obtain ⟨hstarted, h⟩ := bind_unit_ok_iff.mp h
  obtain ⟨hopen, h⟩ := bind_unit_ok_iff.mp h
  obtain ⟨hlifecycle, h⟩ := bind_unit_ok_iff.mp h
  obtain ⟨hknown, h⟩ := bind_unit_ok_iff.mp h
  obtain ⟨timestamp, -, h⟩ := bind_ok_iff.mp h
  obtain ⟨event, hevent, h⟩ := bind_ok_iff.mp h
  cases h
  obtain ⟨hid, hsequence, hkind, hversion⟩ := RoundEvent.make_ok hevent
  have hcapability : IsCapability event := by
    unfold IsCapability
    rw [hkind]
    exact ⟨by simpa using hknown, by simpa using hlifecycle⟩
  cases hr with
  | fresh started finalized events => simp [started] at hstarted
  | ongoing started finalized events =>
    exact ⟨.ongoing started finalized (events.snoc_capability hid hversion hsequence hcapability),
      finalized, finalized⟩
  | complete started finalized events => simp [finalized] at hopen

/-- The recorder that `finalize` leaves when it does not raise. -/
theorem WellRecorded.finalEvent {r : RoundRecorder} {now : Nat} {eventTs : Option Int}
    {finalized : RoundEvent} (hr : WellRecorded r) (h : r.finalEvent now eventTs = .ok finalized) :
    r.started = true ∧ r.finalized = false ∧
      Complete r.roundId (r.events ++ [finalized]) := by
  unfold RoundRecorder.finalEvent at h
  obtain ⟨hstarted, h⟩ := bind_unit_ok_iff.mp h
  obtain ⟨hopen, h⟩ := bind_unit_ok_iff.mp h
  obtain ⟨timestamp, -, h⟩ := bind_ok_iff.mp h
  obtain ⟨hid, hsequence, hkind, hversion⟩ := RoundEvent.make_ok h
  cases hr with
  | fresh started finalized events => simp [started] at hstarted
  | ongoing started finalized events =>
    exact ⟨started, finalized, events.snoc_final hid hversion hsequence hkind⟩
  | complete started finalized events => simp [finalized] at hopen

/-! ## Packages -/

/-- The round id of the row, if it has one, is a value with a hash. -/
def HashableId (row : Row) : Prop :=
  ∀ v, Dict.get? row "round_id" = some v → ∃ s, v = .leaf s

theorem isReplaced_ok {roundIds : List String} {row : Row} {b : Bool}
    (h : isReplaced roundIds row = .ok b) : b = roundIds.any (isOf · row) := by
  unfold isReplaced at h
  split at h
  · rename_i s hs
    cases h
    simp only [isOf, hs, Option.some.injEq, Doc.leaf.injEq, JsonScalar.str.injEq]
    rw [Bool.eq_iff_iff]
    simp
  · cases h
  · cases h
  · rename_i hother _ _
    cases h
    rw [eq_comm, List.any_eq_false]
    intro roundId _ hof
    exact hother roundId (by simpa [isOf] using hof)

theorem isReplaced_of_hashable {row : Row} (h : HashableId row) (roundIds : List String) :
    isReplaced roundIds row = .ok (roundIds.any (isOf · row)) := by
  have hok : ∃ b, isReplaced roundIds row = .ok b := by
    unfold isReplaced
    split
    · exact ⟨_, rfl⟩
    · rename_i hlist
      obtain ⟨s, hs⟩ := h _ hlist
      cases hs
    · rename_i hobj
      obtain ⟨s, hs⟩ := h _ hobj
      cases hs
    · exact ⟨_, rfl⟩
  obtain ⟨b, hb⟩ := hok
  rw [hb, isReplaced_ok hb]

/-- The rows that are kept are those of no replaced round. -/
theorem preservedRows_ok {roundIds : List String} : ∀ {rows kept : List Row},
    preservedRows roundIds rows = .ok kept →
      kept = rows.filter fun row => !roundIds.any (isOf · row) := by
  intro rows
  induction rows with
  | nil =>
    intro kept h
    cases h
    rfl
  | cons row rows ih =>
    intro kept h
    unfold preservedRows filterOk at h
    obtain ⟨b, hb, h⟩ := bind_ok_iff.mp h
    obtain ⟨rest, hrest, h⟩ := bind_ok_iff.mp h
    cases hreplaced : isReplaced roundIds row with
    | error e =>
      rw [hreplaced] at hb
      cases hb
    | ok c =>
      rw [hreplaced] at hb
      cases hb
      cases h
      rw [List.filter_cons, ← isReplaced_ok hreplaced, ih hrest]

theorem preservedRows_of_hashable {rows : List Row} (h : ∀ row ∈ rows, HashableId row)
    (roundIds : List String) : ∃ kept, preservedRows roundIds rows = .ok kept := by
  refine ⟨_, filterOk_of_total (q := fun row => !roundIds.any (isOf · row)) ?_⟩
  intro row hrow
  rw [isReplaced_of_hashable (h row hrow)]
  rfl

theorem hashable_of_preservedRows {roundIds : List String} : ∀ {rows kept : List Row},
    preservedRows roundIds rows = .ok kept → ∀ row ∈ rows, HashableId row := by
  intro rows
  induction rows with
  | nil => simp
  | cons row rows ih =>
    intro kept h
    unfold preservedRows filterOk at h
    obtain ⟨b, hb, h⟩ := bind_ok_iff.mp h
    obtain ⟨rest, hrest, h⟩ := bind_ok_iff.mp h
    have hhead : HashableId row := by
      intro v hv
      cases v with
      | leaf s => exact ⟨s, rfl⟩
      | arr xs =>
        simp only [isReplaced, hv] at hb
        cases hb
      | obj fs =>
        simp only [isReplaced, hv] at hb
        cases hb
    intro row' hrow'
    rcases List.mem_cons.mp hrow' with rfl | hmem
    · exact hhead
    · exact ih hrest row' hmem

/-- What the manifest has to be for the entry to be made. -/
def ManifestReady (p : Package) : Prop :=
  ∃ payload paths auditFiles, p.manifest = some (some (.obj payload)) ∧
    Dict.get? payload "package_kind" = some (.leaf (.str "audit")) ∧
    Dict.get? payload "paths" = some (.obj paths) ∧
    Dict.get? paths "audit_files" = some (.obj auditFiles)

theorem manifestWithEntry_ok_iff (p : Package) :
    (∃ manifest, manifestWithEntry p = .ok manifest) ↔ ManifestReady p := by
  constructor
  · rintro ⟨manifest, h⟩
    unfold manifestWithEntry at h
    split at h
    · cases h
    · cases h
    · rename_i payload hmanifest
      split at h
      · rename_i hkind
        split at h
        · rename_i paths hpaths
          split at h
          · rename_i auditFiles hfiles
            exact ⟨payload, paths, auditFiles, hmanifest, hkind, hpaths, hfiles⟩
          · cases h
        · cases h
      · cases h
    · cases h
  · rintro ⟨payload, paths, auditFiles, hmanifest, hkind, hpaths, hfiles⟩
    unfold manifestWithEntry
    simp only [hmanifest, hkind, hpaths, hfiles]
    exact ⟨_, rfl⟩

/-- The rows of a file of rows. -/
theorem filterMap_rows (rows : List Row) : (rows.map Line.row).filterMap Line.row? = rows := by
  rw [List.filterMap_map]
  exact List.filterMap_some

/-- The rows of the new events file. -/
def Package.withEvents (p : Package) (roundId : String) (events : List RoundEvent) : List Row :=
  p.rows.filter (fun row => !isOf roundId row) ++ events.map roundEventToRow

/-- What `write_round_events_atomic` does with the events of one round: it raises and nothing is
changed, it raises behind the replacement of the events file, or it replaces both files. -/
theorem writeRoundEventsAtomic_cases {roundId : String} {events : List RoundEvent} (faults : Faults)
    (p : Package) (hne : events ≠ []) (hids : ∀ e ∈ events, e.roundId = roundId) :
    (¬ ((∀ row ∈ p.rows, HashableId row) ∧ faults.events = false) ∧
      ∃ e, writeRoundEventsAtomic faults p events = (p, .error e)) ∨
    ((∀ row ∈ p.rows, HashableId row) ∧ faults.events = false ∧
      ¬ (ManifestReady p ∧ faults.manifest = false) ∧ ∃ p' e,
        writeRoundEventsAtomic faults p events = (p', .error e) ∧
        p'.rows = p.withEvents roundId events) ∨
    ((∀ row ∈ p.rows, HashableId row) ∧ faults.events = false ∧
      ManifestReady p ∧ faults.manifest = false ∧ ∃ p',
        writeRoundEventsAtomic faults p events = (p', .ok ()) ∧
        p'.rows = p.withEvents roundId events) := by
  -- all events are of one round, so the rows replaced are those of that round
  have hany : ∀ row, (events.map (·.roundId)).any (isOf · row) = isOf roundId row := by
    intro row
    rw [Bool.eq_iff_iff, List.any_eq_true]
    constructor
    · rintro ⟨id, hid, hof⟩
      obtain ⟨e, he, rfl⟩ := List.mem_map.mp hid
      rw [hids e he] at hof
      exact hof
    · intro hof
      obtain ⟨e, he⟩ := List.exists_mem_of_ne_nil events hne
      exact ⟨roundId, List.mem_map.mpr ⟨e, he, hids e he⟩, hof⟩
  unfold writeRoundEventsAtomic
  cases hkept : preservedRows (events.map (·.roundId)) p.rows with
  | error e =>
    refine .inl ⟨?_, e, rfl⟩
    intro h
    obtain ⟨kept, hok⟩ := preservedRows_of_hashable h.1 (events.map (·.roundId))
    rw [hkept] at hok
    cases hok
  | ok kept =>
    have hhashable := hashable_of_preservedRows hkept
    cases hfault : faults.events with
    | true => exact .inl ⟨by simp, .fault, rfl⟩
    | false =>
      set written : Package :=
        { p with events := some ((kept ++ events.map roundEventToRow).map .row) } with hwritten
      have hrows : written.rows = p.withEvents roundId events := by
        have hkeep := preservedRows_ok hkept
        simp only [hany] at hkeep
        rw [hwritten, Package.rows, Option.getD_some, filterMap_rows, hkeep, Package.withEvents]
      -- the manifest is looked at behind the replacement, but it is still that of before
      have hready : ManifestReady written ↔ ManifestReady p := Iff.rfl
      simp only [Bool.false_eq_true, if_false]
      rw [← hready, ← manifestWithEntry_ok_iff written]
      cases hmanifest : manifestWithEntry written with
      | error e =>
        refine .inr (.inl ⟨hhashable, trivial, ?_, written, e, rfl, hrows⟩)
        rintro ⟨⟨manifest, h⟩, -⟩
        cases h
      | ok manifest =>
        cases hfault' : faults.manifest with
        | true =>
          exact .inr (.inl ⟨hhashable, trivial, by simp, written, .fault, rfl, hrows⟩)
        | false =>
          exact .inr (.inr ⟨hhashable, trivial, ⟨manifest, rfl⟩, rfl,
            { written with manifest := some (some manifest) }, rfl, hrows⟩)

theorem rowsOf_withEvents {p p' : Package} {roundId : String} {events : List RoundEvent}
    (hids : ∀ e ∈ events, e.roundId = roundId) (hrows : p'.rows = p.withEvents roundId events)
    (other : String) : p'.rowsOf other =
      if roundId = other then events.map roundEventToRow else p.rowsOf other := by
  have hof : ∀ row, isOf roundId row = true → isOf other row = true → roundId = other := by
    intro row h h'
    simp only [isOf, decide_eq_true_eq] at h h'
    rw [h] at h'
    simpa using h'
  have hevents : (events.map roundEventToRow).filter (isOf other) =
      if roundId = other then events.map roundEventToRow else [] := by
    split
    · rename_i heq
      rw [List.filter_eq_self]
      intro row hrow
      obtain ⟨e, he, rfl⟩ := List.mem_map.mp hrow
      rw [isOf_toRow, hids e he, heq]
      simp
    · rename_i hne
      rw [List.filter_eq_nil_iff]
      intro row hrow
      obtain ⟨e, he, rfl⟩ := List.mem_map.mp hrow
      rw [isOf_toRow, hids e he]
      simpa using hne
  unfold Package.rowsOf
  rw [hrows, Package.withEvents, List.filter_append, hevents, List.filter_filter]
  split
  · rename_i heq
    have hnone : p.rows.filter (fun row => isOf other row && !isOf roundId row) = [] := by
      rw [List.filter_eq_nil_iff]
      intro row _
      subst heq
      cases isOf roundId row <;> simp
    rw [hnone, List.nil_append]
  · rename_i hne
    rw [List.append_nil]
    apply List.filter_congr
    intro row _
    cases hother : isOf other row with
    | false => rfl
    | true =>
      cases hmine : isOf roundId row with
      | false => rfl
      | true => exact absurd (hof row hmine hother) hne

/-! ## Steps -/

variable {ι K : Type} [DecidableEq ι] {texts : KeyTexts K}

/-- Every recorder is between calls. -/
def State.WellRecorded (s : State ι) : Prop := ∀ i, Audit.WellRecorded (s.recorders i)

/-- The call of `finalize` gets as far as to replace the events file. -/
def State.Replaces (s : State ι) (i : ι) (eventTs : Option Int) (faults : Faults) : Prop :=
  (s.recorders i).started = true ∧ (s.recorders i).finalized = false ∧ (∀ ts ∈ eventTs, 0 ≤ ts) ∧
    (∀ row ∈ s.package.rows, HashableId row) ∧ faults.events = false

theorem finalEvent_ok_iff {r : RoundRecorder} (hr : Audit.WellRecorded r) (now : Nat)
    (eventTs : Option Int) : (∃ e, r.finalEvent now eventTs = .ok e) ↔
      r.started = true ∧ r.finalized = false ∧ ∀ ts ∈ eventTs, 0 ≤ ts := by
  constructor
  · rintro ⟨e, h⟩
    obtain ⟨hstarted, hopen, -⟩ := hr.finalEvent h
    refine ⟨hstarted, hopen, ?_⟩
    unfold RoundRecorder.finalEvent at h
    obtain ⟨-, h⟩ := bind_unit_ok_iff.mp h
    obtain ⟨-, h⟩ := bind_unit_ok_iff.mp h
    obtain ⟨timestamp, htimestamp, -⟩ := bind_ok_iff.mp h
    intro ts hts
    cases hts
    unfold coerceEventTs at htimestamp
    by_contra hneg
    simp [hneg] at htimestamp
  · rintro ⟨hstarted, hopen, hts⟩
    have hround : r.roundId ≠ "" := by
      cases hr with
      | fresh started finalized events => simp [started] at hstarted
      | ongoing started finalized events =>
        obtain ⟨first, middle, hevents, -⟩ := events.shape
        rw [← events.ids first (by simp [hevents])]
        exact first.roundId_ne
      | complete started finalized events => simp [finalized] at hopen
    have htimestamp : ∃ timestamp, coerceEventTs now eventTs = .ok timestamp := by
      cases eventTs with
      | none => exact ⟨now, rfl⟩
      | some ts => exact ⟨ts.toNat, by simp [coerceEventTs, hts ts rfl]⟩
    obtain ⟨timestamp, htimestamp⟩ := htimestamp
    unfold RoundRecorder.finalEvent makeRoundFinalizedEvent RoundEvent.make
    simp only [hstarted, hopen, htimestamp, require, Bool.not_false, if_true, ok_bind]
    rw [dif_pos hround, dif_pos (by decide), dif_pos (by decide)]
    exact ⟨_, rfl⟩

/-- What `finalize` does: it raises and nothing is changed, it raises behind the replacement of the
events file, or the round is over. -/
theorem step_finalize_cases (texts : KeyTexts K) {s : State ι} (hs : s.WellRecorded) (i : ι) (eventTs : Option Int)
    (now : Nat) (faults : Faults) :
    (¬ s.Replaces i eventTs faults ∧ ∃ e,
      s.step texts (.finalize i eventTs now faults) = (s, .error e)) ∨
    (s.Replaces i eventTs faults ∧ ¬ (ManifestReady s.package ∧ faults.manifest = false) ∧
      ∃ finalized package e, Complete (s.recorders i).roundId ((s.recorders i).events ++ [finalized]) ∧
        s.step texts (.finalize i eventTs now faults) = (⟨s.recorders, package⟩, .error e) ∧
        package.rows =
          s.package.withEvents (s.recorders i).roundId ((s.recorders i).events ++ [finalized])) ∨
    (s.Replaces i eventTs faults ∧ ManifestReady s.package ∧ faults.manifest = false ∧
      ∃ finalized package, Complete (s.recorders i).roundId ((s.recorders i).events ++ [finalized]) ∧
        s.step texts (.finalize i eventTs now faults) =
          (⟨Function.update s.recorders i { s.recorders i with
              events := (s.recorders i).events ++ [finalized], finalized := true }, package⟩, .ok ()) ∧
        package.rows =
          s.package.withEvents (s.recorders i).roundId ((s.recorders i).events ++ [finalized])) := by
  have hiff := finalEvent_ok_iff (hs i) now eventTs
  cases hfinal : (s.recorders i).finalEvent now eventTs with
  | error e =>
    refine .inl ⟨?_, e, ?_⟩
    · intro h
      obtain ⟨finalized, hok⟩ := hiff.mpr ⟨h.1, h.2.1, h.2.2.1⟩
      rw [hfinal] at hok
      cases hok
    · simp only [State.step, RoundRecorder.finalize, hfinal, Function.update_eq_self]
  | ok finalized =>
    obtain ⟨hstarted, hopen, hcomplete⟩ := (hs i).finalEvent hfinal
    have hts := (hiff.mp ⟨finalized, hfinal⟩).2.2
    rcases writeRoundEventsAtomic_cases faults s.package (by simp) hcomplete.ids with
      ⟨hno, e, hwrite⟩ | ⟨hhash, hfault, hmanifest, p', e, hwrite, hrows⟩ |
        ⟨hhash, hfault, hready, hmanifest, p', hwrite, hrows⟩
    · refine .inl ⟨?_, e, ?_⟩
      · intro h
        exact hno ⟨h.2.2.2.1, h.2.2.2.2⟩
      · simp only [State.step, RoundRecorder.finalize, hfinal, hwrite, Function.update_eq_self]
    · refine .inr (.inl ⟨⟨hstarted, hopen, hts, hhash, hfault⟩, hmanifest, finalized, p', e,
        hcomplete, ?_, hrows⟩)
      simp only [State.step, RoundRecorder.finalize, hfinal, hwrite, Function.update_eq_self]
    · refine .inr (.inr ⟨⟨hstarted, hopen, hts, hhash, hfault⟩, hready, hmanifest, finalized, p',
        hcomplete, ?_, hrows⟩)
      simp only [State.step, RoundRecorder.finalize, hfinal, hwrite]

/-- A call about one recorder alone raises and changes nothing, or it changes that recorder. -/
theorem put_cases (s : State ι) (i : ι) (result : Except RoundErr RoundRecorder) :
    (∃ e, s.put i result = (s, .error e)) ∨ ∃ r, result = .ok r ∧
      s.put i result = ({ s with recorders := Function.update s.recorders i r }, .ok ()) := by
  cases result with
  | error e => exact .inl ⟨e, rfl⟩
  | ok r => exact .inr ⟨r, rfl, rfl⟩

theorem wellRecorded_update {s : State ι} (hs : s.WellRecorded) {i : ι} {r : RoundRecorder}
    (hr : Audit.WellRecorded r) (package : Package) :
    State.WellRecorded ⟨Function.update s.recorders i r, package⟩ := by
  intro j
  by_cases hj : j = i
  · subst hj
    simpa using hr
  · simpa [Function.update_of_ne hj] using hs j

/-- Recorders stay well recorded, and one that has finalised its round is not changed. -/
theorem wellRecorded_step (texts : KeyTexts K) {s : State ι} (hs : s.WellRecorded) (call : Call ι K) :
    (s.step texts call).1.WellRecorded ∧ ∀ i, (s.recorders i).finalized = true →
      (s.step texts call).1.recorders i = s.recorders i := by
  have hput : ∀ (j : ι) (result : Except RoundErr RoundRecorder),
      (∀ r, result = .ok r →
        Audit.WellRecorded r ∧ r.finalized = false ∧ (s.recorders j).finalized = false) →
      (s.put j result).1.WellRecorded ∧ ∀ i, (s.recorders i).finalized = true →
        (s.put j result).1.recorders i = s.recorders i := by
    intro j result hresult
    rcases put_cases s j result with ⟨e, h⟩ | ⟨r, hr, h⟩
    · rw [h]
      exact ⟨hs, fun _ _ => rfl⟩
    · rw [h]
      refine ⟨wellRecorded_update hs (hresult r hr).1 s.package, ?_⟩
      intro i hi
      have hne : i ≠ j := by
        intro heq
        rw [heq, (hresult r hr).2.2] at hi
        cases hi
      exact Function.update_of_ne hne _ _
  cases call with
  | start j eventTs now => exact hput j _ fun r hr => (hs j).start hr
  | record j kind payload eventTs now => exact hput j _ fun r hr => (hs j).record hr
  | finalize j eventTs now faults =>
    rcases step_finalize_cases texts hs j eventTs now faults with
      ⟨-, e, h⟩ | ⟨-, -, finalized, package, e, -, h, -⟩ |
        ⟨hreplaces, -, -, finalized, package, hcomplete, h, -⟩
    · rw [h]
      exact ⟨hs, fun _ _ => rfl⟩
    · rw [h]
      exact ⟨hs, fun _ _ => rfl⟩
    · rw [h]
      have hr : Audit.WellRecorded { s.recorders j with
          events := (s.recorders j).events ++ [finalized], finalized := true } :=
        .complete hreplaces.1 rfl hcomplete
      refine ⟨wellRecorded_update hs hr package, ?_⟩
      intro i hi
      have hne : i ≠ j := by
        intro heq
        rw [heq, hreplaces.2.1] at hi
        cases hi
      exact Function.update_of_ne hne _ _

/-! ## All or nothing -/

/-- A `finalize` that gets as far as to replace the events file meets a manifest that takes the entry,
and can replace it. -/
def State.Meets (s : State ι) : Call ι K → Prop
  | .finalize i eventTs _ faults =>
      s.Replaces i eventTs faults → ManifestReady s.package ∧ faults.manifest = false
  | .start _ _ _ | .record _ _ _ _ _ => True

/-- A call that raises leaves the package and the recorders as they were, and a `finalize` that does
not raise leaves the rows of the other rounds as they were, in front of the events of its own. -/
def State.AllOrNothing (texts : KeyTexts K) (s : State ι) (call : Call ι K) : Prop :=
  (∀ e, (s.step texts call).2 = .error e → (s.step texts call).1 = s) ∧
    match call with
    | .finalize i _ _ _ =>
        (s.step texts call).2 = .ok () →
          let r := (s.step texts call).1.recorders i
          r.roundId = (s.recorders i).roundId ∧ r.finalized = true ∧ Complete r.roundId r.events ∧
            (s.step texts call).1.package.rows = s.package.withEvents r.roundId r.events
    | .start _ _ _ | .record _ _ _ _ _ => (s.step texts call).1.package = s.package

theorem allOrNothing_of_meets {s : State ι} (hs : s.WellRecorded) {call : Call ι K}
    (h : s.Meets call) : s.AllOrNothing texts call := by
  have hput : ∀ (j : ι) (result : Except RoundErr RoundRecorder),
      (∀ e, (s.put j result).2 = .error e → (s.put j result).1 = s) ∧
        (s.put j result).1.package = s.package := by
    intro j result
    rcases put_cases s j result with ⟨e, hstep⟩ | ⟨r, -, hstep⟩
    · rw [hstep]
      exact ⟨fun _ _ => rfl, rfl⟩
    · rw [hstep]
      exact ⟨nofun, rfl⟩
  cases call with
  | start j eventTs now => exact hput j _
  | record j kind payload eventTs now => exact hput j _
  | finalize j eventTs now faults =>
    unfold State.AllOrNothing
    rcases step_finalize_cases texts hs j eventTs now faults with
      ⟨-, e, hstep⟩ | ⟨hreplaces, hmanifest, -⟩ |
        ⟨-, -, -, finalized, package, hcomplete, hstep, hrows⟩
    · rw [hstep]
      exact ⟨fun _ _ => rfl, fun hok => by cases hok⟩
    · exact absurd (h hreplaces) hmanifest
    · rw [hstep]
      refine ⟨nofun, fun _ => ?_⟩
      simp only [Function.update_self]
      exact ⟨trivial, trivial, hcomplete, hrows⟩

/-! ## Runs -/

/-- `P` holds of every call of a run, in the state that it meets. -/
def State.Along (texts : KeyTexts K) (P : State ι → Call ι K → Prop) (s : State ι) :
    List (Call ι K) → Prop
  | [] => True
  | call :: calls => P s call ∧ (s.step texts call).1.Along texts P calls

/-- A recorder of the round has finalised it, with these events. -/
def State.Finalized (s : State ι) (roundId : String) (events : List RoundEvent) : Prop :=
  ∃ i, (s.recorders i).roundId = roundId ∧ (s.recorders i).finalized = true ∧
    (s.recorders i).events = events

theorem lastOf_cons (roundId : String) (p : String × List RoundEvent)
    (log : List (String × List RoundEvent)) : lastOf (p :: log) roundId =
      (lastOf log roundId).or (if p.1 = roundId then some p.2 else none) := by
  unfold lastOf
  by_cases h : p.1 = roundId
  · rw [List.filter_cons_of_pos (by simpa using h), if_pos h, List.getLast?_cons]
    cases (log.filter (·.1 = roundId)).getLast? <;> rfl
  · rw [List.filter_cons_of_neg (by simpa using h), if_neg h, Option.or_none]

theorem State.finalizations_cons (s : State ι) (call : Call ι K) (calls : List (Call ι K)) :
    s.finalizations texts (call :: calls) =
      (s.finalizations texts [call]) ++ (s.step texts call).1.finalizations texts calls := by
  cases call with
  | start i eventTs now => rfl
  | record i kind payload eventTs now => rfl
  | finalize i eventTs now faults =>
    simp only [State.finalizations]
    cases (s.step texts (.finalize i eventTs now faults)).2 <;> rfl

/-- What a call puts into the file: nothing, or the events of a round that is then over. -/
theorem step_rows {s : State ι} {call : Call ι K} (h : s.AllOrNothing texts call) :
    (s.finalizations texts [call] = [] ∧ (s.step texts call).1.package = s.package) ∨
    ∃ roundId events, s.finalizations texts [call] = [(roundId, events)] ∧
      (s.step texts call).1.Finalized roundId events ∧ Complete roundId events ∧
      (s.step texts call).1.package.rows = s.package.withEvents roundId events := by
  obtain ⟨hfail, hrest⟩ := h
  cases call with
  | start i eventTs now => exact .inl ⟨rfl, hrest⟩
  | record i kind payload eventTs now => exact .inl ⟨rfl, hrest⟩
  | finalize i eventTs now faults =>
    simp only [State.finalizations]
    cases hout : (s.step texts (.finalize i eventTs now faults)).2 with
    | error e => exact .inl ⟨rfl, by rw [hfail e hout]⟩
    | ok u =>
      obtain ⟨-, hfinalized, hcomplete, hrows⟩ := hrest hout
      exact .inr ⟨_, _, rfl, ⟨i, rfl, hfinalized, rfl⟩, hcomplete, hrows⟩

theorem Finalized.run {calls : List (Call ι K)} : ∀ {s : State ι}, s.WellRecorded →
    ∀ {roundId : String} {events : List RoundEvent}, s.Finalized roundId events →
      (s.run texts calls).Finalized roundId events := by
  induction calls with
  | nil => intro s _ roundId events h; exact h
  | cons call calls ih =>
    intro s hs roundId events ⟨i, hid, hfinalized, hevents⟩
    obtain ⟨hnext, hsame⟩ := wellRecorded_step texts hs call
    refine ih hnext ⟨i, ?_⟩
    rw [hsame i hfinalized]
    exact ⟨hid, hfinalized, hevents⟩

/-- What a run without half a finalisation puts into the file. -/
theorem run_rows {calls : List (Call ι K)} : ∀ {s : State ι}, s.WellRecorded →
    s.Along texts (State.AllOrNothing texts) calls → ∀ roundId,
      match lastOf (s.finalizations texts calls) roundId with
      | none => (s.run texts calls).package.rowsOf roundId = s.package.rowsOf roundId
      | some events => (s.run texts calls).Finalized roundId events ∧ Complete roundId events ∧
          (s.run texts calls).package.rowsOf roundId = events.map roundEventToRow := by
  induction calls with
  | nil => intro s _ _ roundId; rfl
  | cons call calls ih =>
    intro s hs ⟨hcall, hcalls⟩ roundId
    have hnext := (wellRecorded_step texts hs call).1
    have ih := ih hnext hcalls roundId
    rw [State.finalizations_cons]
    rcases step_rows hcall with ⟨hnone, hpackage⟩ | ⟨round, events, hone, hfinal, hcomplete, hrows⟩
    · rw [hnone, List.nil_append]
      rw [hpackage] at ih
      exact ih
    · rw [hone, List.singleton_append, lastOf_cons]
      cases hlast : lastOf ((s.step texts call).1.finalizations texts calls) roundId with
      | some last =>
        rw [hlast] at ih
        exact ih
      | none =>
        rw [hlast, rowsOf_withEvents hcomplete.ids hrows] at ih
        by_cases hround : round = roundId
        · subst hround
          simp only [Option.none_or, if_true] at ih ⊢
          exact ⟨Finalized.run hnext hfinal, hcomplete, ih⟩
        · simp only [Option.none_or, if_neg hround] at ih ⊢
          exact ih

/-- Every row that a run without half a finalisation puts into the file is one of a recorder that
reports its round as finalised. -/
theorem run_shows_finalized {calls : List (Call ι K)} : ∀ {s : State ι}, s.WellRecorded →
    s.Along texts (State.AllOrNothing texts) calls →
      ∀ row ∈ (s.run texts calls).package.rows, row ∈ s.package.rows ∨
        ∃ roundId events, (s.run texts calls).Finalized roundId events ∧
          row ∈ events.map roundEventToRow := by
  induction calls with
  | nil => intro s _ _ row hrow; exact .inl hrow
  | cons call calls ih =>
    intro s hs ⟨hcall, hcalls⟩ row hrow
    have hnext := (wellRecorded_step texts hs call).1
    rcases ih hnext hcalls row hrow with hold | hnew
    · rcases step_rows hcall with ⟨-, hpackage⟩ | ⟨round, events, -, hfinal, -, hrows⟩
      · rw [hpackage] at hold
        exact .inl hold
      · rw [hrows, Package.withEvents] at hold
        rcases List.mem_append.mp hold with hkept | hevent
        · exact .inl (List.mem_of_mem_filter hkept)
        · exact .inr ⟨round, events, Finalized.run hnext hfinal, hevent⟩
    · exact .inr hnew

theorem Along.mono {P Q : State ι → Call ι K → Prop} {calls : List (Call ι K)}
    (himp : ∀ s : State ι, s.WellRecorded → ∀ call, P s call → Q s call) : ∀ {s : State ι},
    s.WellRecorded → s.Along texts P calls → s.Along texts Q calls := by
  induction calls with
  | nil => intro s _ _; trivial
  | cons call calls ih =>
    intro s hs ⟨hcall, hcalls⟩
    exact ⟨himp s hs call hcall, ih (wellRecorded_step texts hs call).1 hcalls⟩

omit [DecidableEq ι] in
theorem wellRecorded_new {s : State ι} (h : ∀ i, ∃ roundId, s.recorders i = .new roundId) :
    s.WellRecorded := by
  intro i
  obtain ⟨roundId, hi⟩ := h i
  rw [hi]
  exact .fresh rfl rfl rfl

/-- In a run in which no `finalize` gets as far as to replace the events file and then meets a manifest
that it cannot replace, finalising is all or nothing. -/
theorem rounds_all_or_nothing {s : State ι} {calls : List (Call ι K)}
    (hnew : ∀ i, ∃ roundId, s.recorders i = .new roundId)
    (hmeets : s.Along texts State.Meets calls) :
    s.Along texts (State.AllOrNothing texts) calls ∧
    (∀ roundId, match lastOf (s.finalizations texts calls) roundId with
      | none => (s.run texts calls).package.rowsOf roundId = s.package.rowsOf roundId
      | some events => (s.run texts calls).Finalized roundId events ∧ Complete roundId events ∧
          (summarizeRoundEvents roundId events).isFinalized = true ∧
          (summarizeRoundEvents roundId events).sequenceGaps = [] ∧
          (s.run texts calls).package.rowsOf roundId = events.map roundEventToRow ∧
          mapOk roundEventFromRow (events.map roundEventToRow) = .ok events) ∧
    ∀ row ∈ (s.run texts calls).package.rows, row ∈ s.package.rows ∨
      ∃ roundId events, (s.run texts calls).Finalized roundId events ∧
        row ∈ events.map roundEventToRow := by
  have hs := wellRecorded_new hnew
  have hall : s.Along texts (State.AllOrNothing texts) calls :=
    Along.mono (fun s hs call h => allOrNothing_of_meets hs h) hs hmeets
  refine ⟨hall, ?_, run_shows_finalized hs hall⟩
  intro roundId
  have hrows := run_rows hs hall roundId
  cases hlast : lastOf (s.finalizations texts calls) roundId with
  | none =>
    rw [hlast] at hrows
    exact hrows
  | some events =>
    rw [hlast] at hrows
    obtain ⟨hfinal, hcomplete, hfile⟩ := hrows
    obtain ⟨hfinalized, hgaps⟩ := hcomplete.summary
    exact ⟨hfinal, hcomplete, hfinalized, hgaps, hfile, roundEventFromRow_rows hcomplete.versions⟩

/-- A package that is exported for an audit; a line of its events file is of an older round. -/
def auditPackage : Package where
  manifestPath := "audit-package/manifest.json"
  events := some [.row [("round_id", .leaf (.str "round-0")), ("sequence", .leaf (.int 0))],
    .skipped ""]
  manifest := some (some (.obj [("package_kind", .leaf (.str "audit")),
    ("paths", .obj [("audit_files", .obj [])])]))

/-- A package that is exported for inference, where `audit_files` is `null`. -/
def inferencePackage : Package where
  manifestPath := "inference-package/manifest.json"
  events := none
  manifest := some (some (.obj [("package_kind", .leaf (.str "inference")),
    ("paths", .obj [("audit_files", .leaf .null)])]))

/-- The text of a key that is a string. -/
def stringKeys : KeyTexts Empty := ⟨Empty.elim, fun _ => "'key'"⟩

/-- Recorders of two rounds and a package. -/
def roundsOf (package : Package) : State Bool :=
  ⟨fun second => .new (if second then "round-2" else "round-1"), package⟩

/-- Two rounds that overlap, with a result each. -/
def overlappingRounds : List (Call Bool Empty) :=
  [.start false (some 100) 0, .start true (some 110) 0, .record false "check_result" [] (some 120) 0,
    .record true "diagnose_result" [] none 130, .finalize false (some 200) 0 ⟨false, false⟩,
    .record true "check_result" [] (some 210) 0, .finalize true (some 300) 0 ⟨false, false⟩]

/-- Both rounds land in the file, behind the line of the older one. -/
theorem overlappingRounds_all_or_nothing :
    ((roundsOf auditPackage).Along stringKeys (State.AllOrNothing stringKeys) overlappingRounds) ∧
      (∀ roundId ∈ ["round-1", "round-2"],
        (lastOf ((roundsOf auditPackage).finalizations stringKeys overlappingRounds)
          roundId).isSome) ∧
      ((roundsOf auditPackage).run stringKeys overlappingRounds).package.rowsOf "round-0" =
        auditPackage.rowsOf "round-0" :=
  have hmeets : (roundsOf auditPackage).Along stringKeys State.Meets overlappingRounds :=
    ⟨trivial, trivial, trivial, trivial, fun _ => ⟨⟨_, _, _, rfl, rfl, rfl, rfl⟩, rfl⟩, trivial,
      fun _ => ⟨⟨_, _, _, rfl, rfl, rfl, rfl⟩, rfl⟩, trivial⟩
  have hnew : ∀ i, ∃ roundId, (roundsOf auditPackage).recorders i = .new roundId :=
    fun i => ⟨_, rfl⟩
  ⟨(rounds_all_or_nothing hnew hmeets).1, by decide,
    (rounds_all_or_nothing hnew hmeets).2.1 "round-0"⟩

/-- A recorder of `round-1` and a package. -/
def roundOf (package : Package) : State Unit := ⟨fun _ => .new "round-1", package⟩

/-- In a package for inference `finalize` raises, the events file shows the round, and the recorder
reports it as not finalised. -/
theorem finalize_shows_unfinalized :
    let s := ((roundOf inferencePackage).step stringKeys (.start () (some 100) 0)).1
    let after := s.step stringKeys (.finalize () (some 200) 0 ⟨false, false⟩)
    after.2 = .error (.roundEvent "round events can only be written to audit packages") ∧
      (after.1.recorders ()).finalized = false ∧
      s.package.rowsOf "round-1" = [] ∧
      (after.1.package.rowsOf "round-1").length = 2 := by
  decide

end FactGraph.Audit
