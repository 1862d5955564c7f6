import FactGraph.Db.Commit
import FactGraph.View.Chosen

/-!
# Resolving a mapping predicate

`core/mapping/canon.py`: the active claims of a mapping predicate are read as candidates, grouped by
their key, and one candidate is chosen for every key. Where the candidates of a key disagree on the
value the tie break of the predicate decides.

The grouping compares keys and values with Python's `==`, so both are compared in canonical form; a
key keeps the form its first candidate has.
-/

namespace FactGraph.Mapping

open Protocol Store View Check

/-! ## What is read -/

/-- The methods of a ledger that the resolver calls. -/
structure MappingReads extends LedgerReads where
  findMeta : String → String → Except StoreErr (List MetaRow)
  effectiveMetaRows : String → String → String → Except StoreErr (List MetaRow)

/-- The methods of a plain ledger. -/
def mappingReads (l : Ledger) : MappingReads where
  toLedgerReads := reads l
  findMeta asrtId key :=
    if l.lazyMetaKeys.isEmpty then .ok (Buckets.get l.indexes.metaByAsrtIdKey (asrtId, .plain key))
    else (Db.projectedMetaRows l).map fun rows =>
      rows.filter fun row => row.asrtId = asrtId ∧ row.key.text = key
  effectiveMetaRows asrtId key kind :=
    l.effectiveMetaRows (some asrtId) (some (.plain key)) (some kind) none

/-- `schema_pred.get("tie_break")`. A part that is missing or has another type than the code asks for
is absent. -/
inductive TieBreak where
  | null
  | text (mode : String)
  | object (mode : Option String) (sourceRank : Option (List (Option String)))
  | other
  deriving DecidableEq

/-- The fields of a predicate of a schema document that the resolver reads. -/
structure MappingPred where
  predId : Option String
  isMapping : Bool
  mappingKind : Option String
  argCount : Option Nat
  mappingKeyPositions : Option (List (Option Int))
  mappingValuePositions : Option (List (Option Int))
  tieBreak : TieBreak
  deriving DecidableEq

structure MappingCandidate where
  asrtId : String
  keyTuple : List Rules.Value
  valueTuple : List Rules.Value
  source : Option String
  ingestedAt : Int
  deriving DecidableEq

structure MappingDecision where
  keyTuple : List Rules.Value
  chosenAsrtId : String
  chosenValueTuple : List Rules.Value
  reason : String
  candidateAsrtIds : List String
  deriving DecidableEq

/-- An entry of `conflicts`. -/
structure MappingConflict where
  keyTuple : List Rules.Value
  candidateValues : List (List Rules.Value)
  candidateAsrtIds : List String
  deriving DecidableEq

structure MappingResolution where
  predId : String
  chosenMap : List (List Rules.Value × List Rules.Value)
  candidates : List MappingCandidate
  decisions : List MappingDecision
  deriving DecidableEq

/-- What the resolver raises; `store` is what a method of the ledger raised. -/
inductive MappingErr where
  | resolve (msg : String)
  | indexError (msg : String)
  | valueError (msg : String)
  | conflict (msg : String) (conflicts : List MappingConflict)
  | store (e : StoreErr)
  deriving DecidableEq

/-- An error of the ledger leaves the resolver as it is. -/
def raised {α : Type} : Except StoreErr α → Except MappingErr α
  | .ok a => .ok a
  | .error e => .error (.store e)

/-! ## Reading a candidate -/

/-- `_required_meta_time`. -/
def requiredMetaTime (r : MappingReads) (asrtId key : String) : Except MappingErr Int := do
  let rows ← raised (r.findMeta asrtId key)
  match rows with
  | [row] =>
      match row.kind, row.value with
      | "time", .leaf (.int i) => .ok i
      | _, _ => .error (.resolve s!"{asrtId}.{key} must be meta_time int")
  | _ => .error (.resolve s!"{asrtId} requires exactly one {key}")

/-- `_optional_meta_str`. -/
def optionalMetaStr (r : MappingReads) (asrtId key : String) :
    Except MappingErr (Option String) := do
  let rows ← raised (r.effectiveMetaRows asrtId key "str")
  .ok (rows.getLast?.bind fun row => match row.value with
    | .leaf (.str s) => some s
    | _ => none)

/-- `tuple(args[idx] for idx in positions)`. -/
def argsAt (args : List Rules.Value) (positions : List Nat) :
    Except MappingErr (List Rules.Value) :=
  mapOk (fun idx => match args[idx]? with
    | some v => .ok v
    | none => .error (.indexError "tuple index out of range")) positions

/-- `_candidate_from_claim`. -/
def candidateFromClaim (r : MappingReads) (keyPositions valuePositions : List Nat)
    (claim : Claim) : Except MappingErr MappingCandidate := do
  let args ← raised (buildArgsForClaim r.toLedgerReads claim)
  let keyTuple ← argsAt args keyPositions
  let valueTuple ← argsAt args valuePositions
  let ingestedAt ← requiredMetaTime r claim.asrtId "ingested_at"
  let source ← optionalMetaStr r claim.asrtId "source"
  .ok { asrtId := claim.asrtId, keyTuple, valueTuple, source, ingestedAt }

/-! ## The schema predicate -/

/-- `_normalize_positions`, from the position `idx` and the value `last` on. -/
def normalizePositions (argCount : Nat) (fieldName : String) (idx : Nat) (last : Int) :
    List (Option Int) → Except MappingErr (List Nat)
  | [] => .ok []
  | none :: _ => .error (.resolve s!"{fieldName}[{idx}] must be int")
  | some value :: rest => do
      require (0 ≤ value ∧ value < argCount) (.resolve s!"{fieldName}[{idx}] out of range")
      require (last < value) (.resolve s!"{fieldName} must be strictly ascending")
      let more ← normalizePositions argCount fieldName (idx + 1) value rest
      .ok (value.toNat :: more)

/-- `_normalize_positions`, on what the schema holds under the name. -/
def readPositions (raw : Option (List (Option Int))) (argCount : Nat) (fieldName : String) :
    Except MappingErr (List Nat) :=
  match raw with
  | none => .error (.resolve s!"{fieldName} must be list")
  | some values => normalizePositions argCount fieldName 0 (-1) values

/-- The supported modes. -/
def tieBreakModes : List String :=
  ["error", "latest_by_ingested_at_then_min_assertion_id", "prefer_source"]

/-- The mode and the source ranking of a predicate that names a supported mode. -/
structure TieBreakConf where
  mode : String
  sourceRank : Option (List (Option String)) := none
  deriving DecidableEq

/-- The checks of `_normalize_tie_break` on the mode. -/
def checkedMode (mode : Option String) (sourceRank : Option (List (Option String))) :
    Except MappingErr TieBreakConf := do
  require (mode ≠ some "max_confidence") (.resolve "max_confidence tie_break was removed")
  match mode with
  | none => .error (.resolve "unsupported tie_break mode: None")
  | some mode => do
      require (mode ∈ tieBreakModes) (.resolve s!"unsupported tie_break mode: {mode}")
      .ok { mode, sourceRank }

/-- `_normalize_tie_break`. -/
def normalizeTieBreak : TieBreak → Except MappingErr TieBreakConf
  | .null => .ok { mode := "error" }
  | .text mode => checkedMode (some mode) none
  | .object mode sourceRank => checkedMode mode sourceRank
  | .other => .error (.resolve "tie_break must be null|string|object")

/-! ## The tie break -/

/-- `_invert_for_min_asrt`. -/
def invertForMinAsrt (asrtId : String) : List Int := asrtId.toList.map fun ch => -(ch.toNat : Int)

/-- The order of the keys of `max`, under one name wherever they are compared. -/
instance latestOrder : Preorder (Int ×ₗ List Int) :=
  (Prod.Lex.instLinearOrder Int (List Int)).toPreorder

/-- The key of the `max` of the mode `latest_by_ingested_at_then_min_assertion_id`. -/
def latestKey (c : MappingCandidate) : Int ×ₗ List Int :=
  toLex (c.ingestedAt, invertForMinAsrt c.asrtId)

/-- `{name: idx for idx, name in enumerate(source_rank)}`. -/
def sourceOrder (sourceRank : List String) : List (String × Nat) :=
  sourceRank.zipIdx.foldl (fun order p => Dict.set order p.1 p.2) []

/-- The key of the `sorted` of the mode `prefer_source`. -/
def sourceKey (order : List (String × Nat)) (c : MappingCandidate) : Nat ×ₗ Int ×ₗ String :=
  toLex ((c.source.bind (Dict.get? order)).getD order.length, toLex (-c.ingestedAt, c.asrtId))

/-- `_choose_with_tie_break`. -/
def chooseWithTieBreak (candidates : List MappingCandidate) (conf : TieBreakConf) :
    Except MappingErr MappingCandidate :=
  match conf.mode with
  | "latest_by_ingested_at_then_min_assertion_id" =>
      match candidates.argmax latestKey with
      | some c => .ok c
      | none => .error (.valueError "max() iterable argument is empty")
  | "prefer_source" =>
      match conf.sourceRank.bind (·.mapM id) with
      | none => .error (.resolve "prefer_source requires tie_break.source_rank string list")
      | some sourceRank =>
          let order := sourceOrder sourceRank
          match (candidates.insertionSort fun c d => sourceKey order c ≤ sourceKey order d).head? with
          | some c => .ok c
          | none => .error (.indexError "list index out of range")
  | mode => .error (.resolve s!"unsupported tie_break mode: {mode}")

/-! ## Resolving -/

/-- The key and the value of a candidate as Python compares them. -/
def MappingCandidate.key (c : MappingCandidate) : List Rules.Value := c.keyTuple.map (·.canon)

def MappingCandidate.value (c : MappingCandidate) : List Rules.Value := c.valueTuple.map (·.canon)

/-- `grouped`: the candidates of every key, in the order they were supplied. -/
def grouped (candidates : List MappingCandidate) :
    List (List Rules.Value × List MappingCandidate) :=
  Buckets.ofList MappingCandidate.key id candidates

/-- `distinct_values`, by the first candidate that has each of them. -/
def distinctValues (candidates : List MappingCandidate) : List (List Rules.Value) :=
  (Buckets.ofList MappingCandidate.value (·.valueTuple) candidates).filterMap (·.2.head?)

/-- `tuple(str(x) for x in tup)`. -/
def strTuple (host : Host) (tup : List Rules.Value) : List String := tup.map host.str

/-- `sorted(c.asrt_id for c in candidates)`. -/
def sortedIds (candidates : List MappingCandidate) : List String :=
  (candidates.map (·.asrtId)).insertionSort (· ≤ ·)

/-- The decision on a key. -/
def decisionOf (keyTuple : List Rules.Value) (candidates : List MappingCandidate)
    (chosen : MappingCandidate) (reason : String) : MappingDecision where
  keyTuple := keyTuple
  chosenAsrtId := chosen.asrtId
  chosenValueTuple := chosen.valueTuple
  reason := reason
  candidateAsrtIds := sortedIds candidates

/-- The body of the loop over the keys; `inl` is a conflict. -/
def decideKey (host : Host) (conf : TieBreakConf) (candidates : List MappingCandidate) :
    Except MappingErr (MappingConflict ⊕ MappingDecision) :=
  match candidates with
  | [] => .error (.indexError "list index out of range")
  | first :: _ =>
      let values := distinctValues candidates
      if values.length ≤ 1 then
        .ok (.inr (decisionOf first.keyTuple candidates first "single_value"))
      else if conf.mode = "error" then
        .ok (.inl { keyTuple := first.keyTuple,
                    candidateValues := values.insertionSort fun v w =>
                      strTuple host v ≤ strTuple host w,
                    candidateAsrtIds := sortedIds candidates })
      else do
        let chosen ← chooseWithTieBreak candidates conf
        .ok (.inr (decisionOf first.keyTuple candidates chosen conf.mode))

/-- `(tuple(str(x) for x in key_tuple), asrt_id)`. -/
def sortKey (host : Host) (keyTuple : List Rules.Value) (asrtId : String) :
    List String ×ₗ String :=
  toLex (strTuple host keyTuple, asrtId)

/-- `resolve_mapping_predicate`, from the candidates on. -/
def resolveCandidates (host : Host) (predId : String) (conf : TieBreakConf)
    (candidates : List MappingCandidate) : Except MappingErr MappingResolution := do
  let outcomes ← mapOk (fun g => decideKey host conf g.2) (grouped candidates)
  let conflicts := outcomes.filterMap Sum.getLeft?
  let decisions := outcomes.filterMap Sum.getRight?
  require conflicts.isEmpty (.conflict
    s!"mapping conflict for {predId}: {conflicts.length} key(s)" conflicts)
  .ok { predId
        chosenMap := decisions.map fun d => (d.keyTuple, d.chosenValueTuple)
        candidates := candidates.insertionSort fun c d =>
          sortKey host c.keyTuple c.asrtId ≤ sortKey host d.keyTuple d.asrtId
        decisions := decisions.insertionSort fun d e =>
          sortKey host d.keyTuple d.chosenAsrtId ≤ sortKey host e.keyTuple e.chosenAsrtId }

/-- What `resolve_mapping_predicate` reads off the schema predicate: its id, the positions of the key
and of the value, and the tie break. -/
def checkedPred (pred : MappingPred) :
    Except MappingErr (String × List Nat × List Nat × TieBreakConf) := do
  let predId := pred.predId.getD ""
  require (predId ≠ "") (.resolve "schema_pred.pred_id must be non-empty string")
  require pred.isMapping (.resolve "schema_pred must declare is_mapping=true")
  require (pred.mappingKind = some "single_valued")
    (.resolve "mapping_kind must be 'single_valued'")
  let argCount := pred.argCount.getD 0
  require (argCount ≠ 0) (.resolve "arg_specs must be non-empty list")
  let keyPositions ← readPositions pred.mappingKeyPositions argCount "mapping_key_positions"
  let valuePositions ← readPositions pred.mappingValuePositions argCount "mapping_value_positions"
  require (keyPositions ≠ []) (.resolve "mapping_key_positions must be non-empty")
  require (valuePositions ≠ []) (.resolve "mapping_value_positions must be non-empty")
  let conf ← normalizeTieBreak pred.tieBreak
  .ok (predId, keyPositions, valuePositions, conf)

/-- The candidates of a predicate: its active claims, in the order of the ledger. -/
def candidatesOf (r : MappingReads) (predId : String) (keyPositions valuePositions : List Nat) :
    Except MappingErr (List MappingCandidate) := do
  let claims ← raised (activeClaims r.toLedgerReads predId)
  mapOk (candidateFromClaim r keyPositions valuePositions) claims

/-- `resolve_mapping_predicate`. -/
def resolveMappingPredicate (host : Host) (r : MappingReads) (pred : MappingPred) :
    Except MappingErr MappingResolution := do
  let (predId, keyPositions, valuePositions, conf) ← checkedPred pred
  let candidates ← candidatesOf r predId keyPositions valuePositions
  resolveCandidates host predId conf candidates

end FactGraph.Mapping
