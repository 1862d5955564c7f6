import Mathlib.Logic.Function.Basic
import FactGraph.Codec.Objects

/-!
# Rounds

`audit/round_events.py`: a `RoundRecorder` keeps the events of a round, and `finalize` writes them into
the events file of an audit package, in place of what the file has under the same round id, and then
enters the file into the manifest of the package.

The events file is a list of lines, and a line is what `json.loads` makes of it: a row, or a line that
is skipped. A row of an older round is not an event: nothing says that it has the fields of one, and
the code only looks at its `round_id`. So a package keeps rows, and only the rows of the rounds that
are finalised here are known to be those of events.

The manifest is missing, unreadable or a document, since each of the three raises a different error,
and each behind the replacement of the events file. Whether a file can be put in place is not up to
the code; the `Faults` of a call say which of its two replacements raise. They are part of the call and
not of the state, because a run is about every pattern of faults.

A call gives back the package also when it raises (`writeRoundEventsAtomic`): an `Except` over the
whole call would lose the package that a late error leaves behind.
-/

namespace FactGraph.Audit

open Protocol Store Codec Check

/-- What `RoundRecorder` raises. `fault` is what the replacement of a file raises. -/
inductive RoundErr where
  | roundEvent (msg : String)
  | typeError (msg : String)
  | jsonDecode (msg : String)
  | fault
  deriving DecidableEq, Repr

/-! ## Events -/

/-- `str` of a key that is no string, and `repr` of a key. -/
structure KeyTexts (K : Type) where
  str : K → String
  repr : Key K → String

section Payload

variable {K : Type} (texts : KeyTexts K)

mutual

/-- `_validate_json_value`. -/
def validateJsonValue (fieldName : String) : PyObj K → Except RoundErr Json
  | .leaf .none => .ok (.leaf .null)
  | .leaf (.bool b) => .ok (.leaf (.bool b))
  | .leaf (.int i) => .ok (.leaf (.int i))
  | .leaf (.float x) => .ok (.leaf (.float x))
  | .leaf (.str s) => .ok (.leaf (.str s))
  | .leaf (.bytes _) | .tuple _ => .error (.roundEvent s!"{fieldName} must be JSONValue")
  | .list xs => (validateJsonItems s!"{fieldName}[]" xs).map .arr
  | .dict fs => (validateJsonFields fieldName fs).map fun gs => .obj (Dict.update [] gs)

def validateJsonItems (fieldName : String) : List (PyObj K) → Except RoundErr (List Json)
  | [] => .ok []
  | x :: xs => do
      let y ← validateJsonValue fieldName x
      let ys ← validateJsonItems fieldName xs
      .ok (y :: ys)

def validateJsonFields (fieldName : String) :
    List (Key K × PyObj K) → Except RoundErr (List (String × Json))
  | [] => .ok []
  | (key, x) :: fs => do
      let y ← validateJsonValue s!"{fieldName}[{texts.repr key}]" x
      let gs ← validateJsonFields fieldName fs
      .ok ((key.text texts.str, y) :: gs)

end

/-- `_validate_json_mapping`. -/
def validateJsonMapping (fieldName : String) (value : List (Key K × PyObj K)) :
    Except RoundErr (List (String × Json)) :=
  (validateJsonFields texts fieldName value).map (Dict.update [])

end Payload

/-- `RoundEvent`. -/
structure RoundEvent where
  roundId : String
  sequence : Nat
  eventTs : Nat
  kind : String
  schemaVersion : String
  payload : List (String × Json)
  roundId_ne : roundId ≠ ""
  kind_ne : kind ≠ ""
  schemaVersion_ne : schemaVersion ≠ ""

def requireNonEmpty (fieldName : String) : RoundErr :=
  .roundEvent s!"{fieldName} must be non-empty string"

/-- The constructor of `RoundEvent`, from numbers that are not negative. -/
def RoundEvent.make (roundId : String) (sequence eventTs : Nat) (kind schemaVersion : String)
    (payload : Except RoundErr (List (String × Json))) : Except RoundErr RoundEvent :=
  if hround : roundId ≠ "" then
    if hkind : kind ≠ "" then
      if hschema : schemaVersion ≠ "" then
        payload.map fun payload =>
          ⟨roundId, sequence, eventTs, kind, schemaVersion, payload, hround, hkind, hschema⟩
      else .error (requireNonEmpty "schema_version")
    else .error (requireNonEmpty "kind")
  else .error (requireNonEmpty "round_id")

/-- `ROUND_EVENT_SCHEMA_VERSION`. -/
def roundEventSchemaVersion : String := "1.0"

/-- `ROUND_EVENT_KINDS`. -/
def roundEventKinds : List String :=
  ["round_started", "check_result", "diagnose_result", "fact_overlay_result", "why_not_result",
    "proof_frame_result", "round_finalized"]

/-- `_LIFECYCLE_KINDS`. -/
def lifecycleKinds : List String := ["round_started", "round_finalized"]

/-- `_coerce_event_ts`, at a time of the clock. -/
def coerceEventTs (now : Nat) : Option Int → Except RoundErr Nat
  | none => .ok now
  | some ts =>
      if 0 ≤ ts then .ok ts.toNat else .error (.roundEvent "event_ts must be non-negative int")

/-- `make_round_started_event`. -/
def makeRoundStartedEvent (roundId : String) (timestamp : Nat) : Except RoundErr RoundEvent :=
  RoundEvent.make roundId 0 timestamp "round_started" roundEventSchemaVersion
    (.ok [("started_at", .leaf (.int timestamp))])

/-- `counts[kind] = counts.get(kind, 0) + 1` for each kind. -/
def countKinds (kinds : List String) : List (String × Nat) :=
  kinds.foldl (fun counts kind => Dict.set counts kind ((Dict.get? counts kind).getD 0 + 1)) []

/-- `make_round_finalized_event`. -/
def makeRoundFinalizedEvent (roundId : String) (sequence : Nat) (events : List RoundEvent)
    (timestamp : Nat) : Except RoundErr RoundEvent :=
  let capabilityEvents := events.filter fun e => e.kind ∉ lifecycleKinds
  RoundEvent.make roundId sequence timestamp "round_finalized" roundEventSchemaVersion
    (.ok [("finalized_at", .leaf (.int timestamp)),
      ("event_count", .leaf (.int capabilityEvents.length)),
      ("kind_counts", .obj ((countKinds (capabilityEvents.map (·.kind))).map fun p =>
        (p.1, .leaf (.int p.2))))])

/-! ## Rows -/

/-- A row of the events file. -/
abbrev Row := List (String × Json)

/-- `round_event_to_row`. -/
def roundEventToRow (e : RoundEvent) : Row :=
  [("round_id", .leaf (.str e.roundId)), ("sequence", .leaf (.int e.sequence)),
    ("event_ts", .leaf (.int e.eventTs)), ("kind", .leaf (.str e.kind)),
    ("schema_version", .leaf (.str e.schemaVersion)), ("payload", .obj e.payload)]

/-- A value that has to be a string with a character. -/
def rowText (fieldName : String) : Option Json → Except RoundErr String
  | some (.leaf (.str s)) => .ok s
  | _ => .error (requireNonEmpty fieldName)

/-- `_validate_non_negative_int`. -/
def rowNatural (fieldName : String) : Option Json → Except RoundErr Nat
  | some (.leaf (.int i)) =>
      if 0 ≤ i then .ok i.toNat
      else .error (.roundEvent s!"{fieldName} must be non-negative int")
  | _ => .error (.roundEvent s!"{fieldName} must be non-negative int")

/-- The version before its first dot is a number from 2 on. -/
def isFutureVersion (schemaVersion : String) : Bool :=
  let major := schemaVersion.toList.takeWhile (· ≠ '.')
  match Rules.digits? major with
  | some n => 2 ≤ n
  | none => false

/-- `round_event_from_row`. -/
def roundEventFromRow (row : Row) : Except RoundErr RoundEvent := do
  let roundId ← rowText "round_id" (Dict.get? row "round_id")
  let sequence ← rowNatural "sequence" (Dict.get? row "sequence")
  let eventTs ← rowNatural "event_ts" (Dict.get? row "event_ts")
  let kind ← rowText "kind" (Dict.get? row "kind")
  let schemaVersion ← rowText "schema_version" (Dict.get? row "schema_version")
  let kind := if kind ≠ "" ∧ schemaVersion ≠ "" ∧ isFutureVersion schemaVersion
    then "future:" ++ kind else kind
  RoundEvent.make roundId sequence eventTs kind schemaVersion
    (match Dict.get? row "payload" with
      | some (.obj fs) => .ok fs
      | _ => .error (.roundEvent "payload must be Mapping[str, JSONValue]"))

/-! ## Summaries -/

/-- `RoundSummary`. -/
structure RoundSummary where
  roundId : String
  eventCount : Nat
  kindCounts : List (String × Nat)
  startedAt : Option Int
  finalizedAt : Option Int
  isFinalized : Bool
  sequenceGaps : List Nat

/-- An integer of a payload, or the time of the event. -/
def payloadTime (e : RoundEvent) (key : String) : Int :=
  match Dict.get? e.payload key with
  | some (.leaf (.int i)) => i
  | _ => e.eventTs

/-- The numbers between the least and the greatest of a list that it does not have. -/
def gapsOf (sequences : List Nat) : List Nat :=
  let sorted := sequences.insertionSort (· ≤ ·)
  match sorted.head?, sorted.getLast? with
  | some low, some high =>
      ((List.range (high + 1 - low)).map (low + ·)).filter (· ∉ sequences)
  | _, _ => []

/-- `summarize_round_events`. -/
def summarizeRoundEvents (roundId : String) (events : List RoundEvent) : RoundSummary :=
  let kindCounts := countKinds (events.map (·.kind))
  let started := events.find? (·.kind == "round_started")
  let finalized := (events.filter (·.kind == "round_finalized")).getLast?
  { roundId
    eventCount := ((kindCounts.filter fun p => p.1 ∉ lifecycleKinds).map Prod.snd).sum
    kindCounts
    startedAt := started.map (payloadTime · "started_at")
    finalizedAt := finalized.map (payloadTime · "finalized_at")
    isFinalized := finalized.isSome
    sequenceGaps := gapsOf (events.map (·.sequence)) }

/-! ## Packages -/

/-- A line of the events file. -/
inductive Line where
  | row (r : Row)
  /-- A blank line, one that is no JSON, or one that is no object. -/
  | skipped (text : String)

/-- An audit package, as far as rounds go. -/
structure Package where
  manifestPath : String
  /-- `none` is a missing file. -/
  events : Option (List Line)
  /-- `none` is a missing file, `some none` one that is no JSON. -/
  manifest : Option (Option Json)

/-- What raises in a call from outside: reading or replacing the events file, and replacing the
manifest. -/
structure Faults where
  events : Bool
  manifest : Bool

def Line.row? : Line → Option Row
  | .row r => some r
  | .skipped _ => none

/-- The rows of the events file. -/
def Package.rows (p : Package) : List Row := (p.events.getD []).filterMap Line.row?

/-- `row.get("round_id") in new_round_ids`; a list or an object has no hash. -/
def isReplaced (roundIds : List String) (row : Row) : Except RoundErr Bool :=
  match Dict.get? row "round_id" with
  | some (.leaf (.str s)) => .ok (s ∈ roundIds)
  | some (.arr _) => .error (.typeError "unhashable type: 'list'")
  | some (.obj _) => .error (.typeError "unhashable type: 'dict'")
  | _ => .ok false

/-- The rows that `write_round_events_atomic` keeps. -/
def preservedRows (roundIds : List String) (rows : List Row) : Except RoundErr (List Row) :=
  filterOk (fun row => (isReplaced roundIds row).map (!·)) rows

/-- `ROUND_EVENTS_AUDIT_FILE_KEY` and `ROUND_EVENTS_REL_PATH`. -/
def auditFileEntry : String × Json := ("round_events", .leaf (.str "audit/round_events.jsonl"))

/-- The manifest that `_record_round_events_manifest_entry` writes. -/
def manifestWithEntry (p : Package) : Except RoundErr Json :=
  match p.manifest with
  | none => .error (.roundEvent s!"missing manifest.json: {p.manifestPath}")
  | some none => .error (.jsonDecode "manifest.json")
  | some (some (.obj payload)) =>
      match Dict.get? payload "package_kind" with
      | some (.leaf (.str "audit")) =>
          match Dict.get? payload "paths" with
          | some (.obj paths) =>
              match Dict.get? paths "audit_files" with
              | some (.obj auditFiles) =>
                  let auditFiles := Dict.set auditFiles auditFileEntry.1 auditFileEntry.2
                  .ok (.obj (Dict.set payload "paths"
                    (.obj (Dict.set paths "audit_files" (.obj auditFiles)))))
              | _ => .error (.roundEvent "manifest.paths.audit_files must be object")
          | _ => .error (.roundEvent "manifest.paths must be object")
      | _ => .error (.roundEvent "round events can only be written to audit packages")
  | some (some _) => .error (.roundEvent "manifest.json must be object")

/-- `write_round_events_atomic`: the package it leaves, and whether it raises. -/
def writeRoundEventsAtomic (faults : Faults) (p : Package) (events : List RoundEvent) :
    Package × Except RoundErr Unit :=
  match preservedRows (events.map (·.roundId)) p.rows with
  | .error e => (p, .error e)
  | .ok preserved =>
      if faults.events then (p, .error .fault)
      else
        -- from here on the events file is replaced, whatever raises
        let written : Package :=
          { p with events := some ((preserved ++ events.map roundEventToRow).map .row) }
        match manifestWithEntry written with
        | .error e => (written, .error e)
        | .ok manifest =>
            if faults.manifest then (written, .error .fault)
            else ({ written with manifest := some (some manifest) }, .ok ())

/-! ## Recorders -/

/-- `RoundRecorder`. -/
structure RoundRecorder where
  roundId : String
  events : List RoundEvent
  started : Bool
  finalized : Bool

namespace RoundRecorder

/-- `RoundRecorder(round_id)`. -/
def new (roundId : String) : RoundRecorder := ⟨roundId, [], false, false⟩

/-- `start`. -/
def start (r : RoundRecorder) (now : Nat) (eventTs : Option Int) : Except RoundErr RoundRecorder := do
  require (!r.started) (.roundEvent "round already started")
  let timestamp ← coerceEventTs now eventTs
  let event ← makeRoundStartedEvent r.roundId timestamp
  .ok { r with events := r.events ++ [event], started := true }

/-- `record`. -/
def record {K : Type} (texts : KeyTexts K) (r : RoundRecorder) (now : Nat) (kind : String)
    (payload : List (Key K × PyObj K)) (eventTs : Option Int) : Except RoundErr RoundRecorder := do
  require r.started (.roundEvent "round must be started before recording events")
  require (!r.finalized) (.roundEvent "round already finalized")
  require (kind ∉ lifecycleKinds)
    (.roundEvent "lifecycle events are managed by start/finalize")
  require (kind ∈ roundEventKinds) (.roundEvent s!"unknown first-slice round event kind: {kind}")
  let timestamp ← coerceEventTs now eventTs
  let event ← RoundEvent.make r.roundId r.events.length timestamp kind roundEventSchemaVersion
    (validateJsonMapping texts "payload" payload)
  .ok { r with events := r.events ++ [event] }

/-- The last event of the round, as `finalize` makes it. -/
def finalEvent (r : RoundRecorder) (now : Nat) (eventTs : Option Int) :
    Except RoundErr RoundEvent := do
  require r.started (.roundEvent "round must be started before finalize")
  require (!r.finalized) (.roundEvent "round already finalized")
  let timestamp ← coerceEventTs now eventTs
  makeRoundFinalizedEvent r.roundId r.events.length r.events timestamp

/-- `finalize`: the package and the recorder it leaves, and whether it raises. -/
def finalize (r : RoundRecorder) (faults : Faults) (p : Package) (now : Nat)
    (eventTs : Option Int) : Package × RoundRecorder × Except RoundErr Unit :=
  match r.finalEvent now eventTs with
  | .error e => (p, r, .error e)
  | .ok finalized =>
      match writeRoundEventsAtomic faults p (r.events ++ [finalized]) with
      | (p', .error e) => (p', r, .error e)
      | (p', .ok ()) =>
          (p', { r with events := r.events ++ [finalized], finalized := true }, .ok ())

end RoundRecorder

/-! ## Runs -/

/-- Recorders that share a package. -/
structure State (ι : Type) where
  recorders : ι → RoundRecorder
  package : Package

/-- A call, and what it meets outside the code: the time of the clock and the faults. -/
inductive Call (ι K : Type) where
  | start (i : ι) (eventTs : Option Int) (now : Nat)
  | record (i : ι) (kind : String) (payload : List (Key K × PyObj K)) (eventTs : Option Int)
      (now : Nat)
  | finalize (i : ι) (eventTs : Option Int) (now : Nat) (faults : Faults)

variable {ι K : Type} [DecidableEq ι] (texts : KeyTexts K)

/-- The recorder after a call that is about it alone. -/
def State.put (s : State ι) (i : ι) : Except RoundErr RoundRecorder → State ι × Except RoundErr Unit
  | .ok r => ({ s with recorders := Function.update s.recorders i r }, .ok ())
  | .error e => (s, .error e)

/-- A call: the state it leaves, and whether it raises. -/
def State.step (s : State ι) : Call ι K → State ι × Except RoundErr Unit
  | .start i eventTs now => s.put i ((s.recorders i).start now eventTs)
  | .record i kind payload eventTs now =>
      s.put i ((s.recorders i).record texts now kind payload eventTs)
  | .finalize i eventTs now faults =>
      let (package, r, outcome) := (s.recorders i).finalize faults s.package now eventTs
      (⟨Function.update s.recorders i r, package⟩, outcome)

/-- A run of calls; a call that raises does not end it. -/
def State.run (s : State ι) (calls : List (Call ι K)) : State ι :=
  calls.foldl (fun s call => (s.step texts call).1) s

/-- The rounds that a run finalises, each with its events, in order. -/
def State.finalizations (s : State ι) : List (Call ι K) → List (String × List RoundEvent)
  | [] => []
  | call :: calls =>
      let (after, outcome) := s.step texts call
      match call, outcome with
      | .finalize i _ _ _, .ok () =>
          ((after.recorders i).roundId, (after.recorders i).events) :: after.finalizations calls
      | _, _ => after.finalizations calls

/-- The events of the last recorder that finalised a round. -/
def lastOf (log : List (String × List RoundEvent)) (roundId : String) : Option (List RoundEvent) :=
  (log.filter (·.1 = roundId)).getLast?.map Prod.snd

/-- The row is one of the round. -/
def isOf (roundId : String) (row : Row) : Bool :=
  decide (Dict.get? row "round_id" = some (.leaf (.str roundId)))

/-- The rows of a round. -/
def Package.rowsOf (p : Package) (roundId : String) : List Row := p.rows.filter (isOf roundId)

end FactGraph.Audit
