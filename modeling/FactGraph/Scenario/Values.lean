import FactGraph.Codec.Scalars
import FactGraph.Entity.Index

/-!
# Scenario values and projected relations

`application/protocol/scenario_v1.py` and the head of `application/scenario_v1_runtime.py`: the
values a scenario is spelled with, the projected relation it is resolved against, and the typed
facts a relation stands for under a schema.

A row carries the Python objects the caller put there. Typing a row turns each of them into a
`ScenarioValue` (`ScenarioValue.fromRaw`), whose storage is canonical; two objects may have one storage,
so the comparisons the resolver makes on rows (`eqvDatum`) are finer than equality of typed facts.
-/

namespace FactGraph.Scenario

open Protocol Store Check Entity

/-! ## The host -/

/-- What the resolver calls of the standard library, besides what the write commands call: the
canonical text of `json.dumps`, in UTF-8. -/
structure Host where
  entity : Entity.Host
  dumps : Datum → List UInt8

/-- What the resolver raises: `ScenarioResolutionErrorV1`, `ProtocolShapeError`, and the errors it
does not catch. -/
inductive Fault where
  | resolution (message code : String)
  | protocolShape (message : String)
  | other (e : Entity.Fault)

def reject {α : Type} (message code : String) : Except Fault α := .error (.resolution message code)

/-- Raise `ScenarioResolutionErrorV1` unless the condition holds. -/
def demand (c : Bool) (message code : String) : Except Fault Unit :=
  require c (.resolution message code)

@[simp] theorem demand_ok_iff {c : Bool} {message code : String} :
    demand c message code = .ok () ↔ c = true := require_ok_iff

def text (s : String) : Datum := .leaf (.str s)

/-- `_token`. -/
def Host.token (host : Host) (label : String) (payload : Datum) : String :=
  "sha256:" ++ hexdigest (host.entity.db.sha256
    (host.dumps (.obj [("format", text label), ("payload", payload)])))

/-- `_canonical_strings`, on strings that are not empty. -/
def canonicalStrings (values : List String) : List String :=
  values.dedup.insertionSort (· ≤ ·)

@[simp] theorem mem_canonicalStrings {values : List String} {s : String} :
    s ∈ canonicalStrings values ↔ s ∈ values := by
  rw [canonicalStrings, List.mem_insertionSort, List.mem_dedup]

theorem canonicalStrings_idem (ids : List String) :
    canonicalStrings (canonicalStrings ids) = canonicalStrings ids := by
  have hnodup : (canonicalStrings ids).Nodup :=
    (List.perm_insertionSort _ _).nodup_iff.mpr (List.nodup_dedup ids)
  have hsorted : (canonicalStrings ids).Pairwise (· ≤ ·) := List.pairwise_insertionSort _ _
  show ((canonicalStrings ids).dedup).insertionSort (· ≤ ·) = canonicalStrings ids
  rw [hnodup.dedup]
  exact hsorted.insertionSort_eq

/-- The canonical order depends on the set only. -/
theorem canonicalStrings_congr {ids ids' : List String} (h : ∀ s, s ∈ ids ↔ s ∈ ids') :
    canonicalStrings ids = canonicalStrings ids' := by
  have hperm : ids.dedup.Perm ids'.dedup := by
    rw [List.perm_ext_iff_of_nodup (List.nodup_dedup ids) (List.nodup_dedup ids')]
    intro s
    rw [List.mem_dedup, List.mem_dedup, h s]
  unfold canonicalStrings
  refine @List.Perm.eq_of_pairwise _ (· ≤ ·) _ _ ?_ ?_ ?_ ?_
  · intro a b _ _ hab hba
    exact le_antisymm hab hba
  · exact List.pairwise_insertionSort _ _
  · exact List.pairwise_insertionSort _ _
  · exact ((List.perm_insertionSort _ _).trans hperm).trans (List.perm_insertionSort _ _).symm

/-! ## Values -/

/-- `_raw_value`. -/
def rawValue (tag : String) (value : Rules.Value) : Option Datum :=
  if tag = "bytes" then
    match value with
    | .str s => (Codec.urlsafeB64decode? s).map fun raw => .leaf (.bytes raw)
    | _ => none
  else some (View.datumOf value)

/-- The storage is what `claim_args_from_rest_terms` makes of the value it stands for. -/
def IsCanonical (tag : String) (value : Rules.Value) : Prop :=
  (rawValue tag value).any (fun raw => decide ((valAtomForClaimArg tag raw).toOption = some value)) =
    true

instance (tag : String) (value : Rules.Value) : Decidable (IsCanonical tag value) :=
  inferInstanceAs (Decidable (_ = true))

/-- `ScenarioValueV1`. -/
structure ScenarioValue where
  tag : String
  value : Rules.Value
  canonical : IsCanonical tag value
  deriving DecidableEq

/-- `ScenarioValueV1.__post_init__`. -/
def scenarioValue (tag : String) (value : Rules.Value) : Except Fault ScenarioValue :=
  if h : IsCanonical tag value then .ok ⟨tag, value, h⟩
  else .error (.protocolShape "ScenarioValueV1 storage is not canonical")

/-- `ScenarioValueV1.from_raw`. -/
def ScenarioValue.fromRaw (tag : String) (value : Datum) : Except Fault ScenarioValue :=
  if (tagCode? tag).isSome then
    match valAtomForClaimArg tag value with
    | .ok normalized => scenarioValue tag normalized
    | .error _ => .error (.protocolShape "ScenarioValueV1 raw value is invalid")
  else .error (.protocolShape "ScenarioValueV1.tag must be a supported tup_v1 tag")

namespace ScenarioValue

/-- `to_raw`. -/
def toRaw (v : ScenarioValue) : Datum := (rawValue v.tag v.value).getD (.leaf .none)

/-- The object a value stands for has its storage. -/
theorem valAtom_toRaw (v : ScenarioValue) : valAtomForClaimArg v.tag v.toRaw = .ok v.value := by
  obtain ⟨tag, value, h⟩ := v
  unfold IsCanonical at h
  show valAtomForClaimArg tag ((rawValue tag value).getD _) = .ok value
  cases hraw : rawValue tag value with
  | none =>
    rw [hraw] at h
    cases h
  | some raw =>
    rw [hraw] at h
    have hstored : (valAtomForClaimArg tag raw).toOption = some value := of_decide_eq_true h
    show valAtomForClaimArg tag raw = .ok value
    cases hatom : valAtomForClaimArg tag raw with
    | error e =>
      rw [hatom] at hstored
      cases hstored
    | ok atom =>
      rw [hatom] at hstored
      cases hstored
      rfl

theorem toRaw_inj {v w : ScenarioValue} (htag : v.tag = w.tag) (h : v.toRaw = w.toRaw) : v = w := by
  have hv := v.valAtom_toRaw
  rw [h, htag, w.valAtom_toRaw, Except.ok.injEq] at hv
  obtain ⟨tag, value, _⟩ := v
  obtain ⟨tag', value', _⟩ := w
  cases htag
  cases hv
  rfl

theorem fromRaw_ok {tag : String} {d : Datum} {v : ScenarioValue} (h : fromRaw tag d = .ok v) :
    v.tag = tag ∧ valAtomForClaimArg tag d = .ok v.value := by
  unfold fromRaw at h
  split at h
  next =>
    split at h
    next normalized hatom =>
      unfold scenarioValue at h
      split at h
      next =>
        cases h
        exact ⟨rfl, hatom⟩
      next => cases h
    next => cases h
  next => cases h

/-- `value_digest`. -/
def valueDigest (host : Host) (v : ScenarioValue) : String :=
  host.token "scenario_value_v1" (.obj [("tag", text v.tag), ("value", View.datumOf v.value)])

/-- The pair of tag and storage, as digests spell it. -/
def payload (v : ScenarioValue) : Datum := .arr [text v.tag, View.datumOf v.value]

end ScenarioValue

/-! ## Relations -/

/-- `ProjectedFact`. -/
structure Row where
  asrtId : String
  factTuple : List Datum

/-- `ProjectedRelationV1`: a mapping from predicates to rows. -/
structure Relation where
  entries : List (String × List Row)
  nodup : (Dict.keys entries).Nodup

namespace Relation

/-- `relation.get(predicate_id)`. -/
def rows? (r : Relation) (predicateId : String) : Option (List Row) := Dict.get? r.entries predicateId

/-- The rows of a predicate; a predicate that is missing has none. -/
def rows (r : Relation) (predicateId : String) : List Row := (r.rows? predicateId).getD []

/-- The predicates of a relation. -/
def predicates (r : Relation) : List String := Dict.keys r.entries

/-- The assertion ids of a relation, in the order of its rows. -/
def witnesses (r : Relation) : List String := r.entries.flatMap fun p => p.2.map (·.asrtId)

/-- `mutable[predicate_id] = rows`. -/
def set (r : Relation) (predicateId : String) (rows : List Row) : Relation :=
  ⟨Dict.set r.entries predicateId rows, Dict.nodup_keys_set r.nodup predicateId rows⟩

/-- Every list of rows is replaced. -/
def mapRows (r : Relation) (f : String → List Row → List Row) : Relation where
  entries := r.entries.map fun p => (p.1, f p.1 p.2)
  nodup := by
    have h := r.nodup
    simp only [Dict.keys, List.map_map, Function.comp_def] at h ⊢
    exact h

/-- `sorted(relation.items())`. -/
def sorted (r : Relation) : Relation where
  entries := r.entries.insertionSort (·.1 ≤ ·.1)
  nodup := ((List.perm_insertionSort _ r.entries).map Prod.fst).nodup_iff.mpr r.nodup

theorem rows?_set (r : Relation) (p q : String) (rows : List Row) :
    (r.set p rows).rows? q = if q = p then some rows else r.rows? q := Dict.get?_set _ _ _ _

theorem rows_set (r : Relation) (p q : String) (rows : List Row) :
    (r.set p rows).rows q = if q = p then rows else r.rows q := by
  unfold Relation.rows
  rw [rows?_set]
  split <;> rfl

@[simp] theorem rows?_mapRows (r : Relation) (f : String → List Row → List Row) (p : String) :
    (r.mapRows f).rows? p = (r.rows? p).map (f p) := Dict.get?_map f r.entries p

@[simp] theorem rows?_sorted (r : Relation) (p : String) : r.sorted.rows? p = r.rows? p :=
  (Dict.get?_perm (List.perm_insertionSort _ r.entries).symm r.nodup p).symm

@[simp] theorem rows_sorted (r : Relation) (p : String) : r.sorted.rows p = r.rows p := by
  unfold Relation.rows
  rw [rows?_sorted]

theorem mem_predicates {r : Relation} {p : String} :
    p ∈ r.predicates ↔ ∃ rows, r.rows? p = some rows := Dict.mem_keys_iff

@[simp] theorem mem_predicates_sorted {r : Relation} {p : String} :
    p ∈ r.sorted.predicates ↔ p ∈ r.predicates := by
  simp only [mem_predicates, rows?_sorted]

theorem mem_entries {r : Relation} {p : String} {rows : List Row} :
    (p, rows) ∈ r.entries ↔ r.rows? p = some rows := (Dict.get?_eq_some_iff r.nodup).symm

theorem rows_of_rows? {r : Relation} {p : String} {rows : List Row} (h : r.rows? p = some rows) :
    r.rows p = rows := by
  unfold Relation.rows
  rw [h]
  rfl

theorem mem_predicates_of_row {r : Relation} {p : String} {row : Row} (h : row ∈ r.rows p) :
    p ∈ r.predicates := by
  unfold Relation.rows at h
  cases hrows : r.rows? p with
  | none =>
    rw [hrows] at h
    cases h
  | some rows => exact mem_predicates.mpr ⟨rows, hrows⟩

theorem rows?_of_mem {r : Relation} {p : String} (h : p ∈ r.predicates) :
    r.rows? p = some (r.rows p) := by
  obtain ⟨rows, hrows⟩ := mem_predicates.mp h
  rw [rows_of_rows? hrows, hrows]

end Relation

/-- The loop over the rows in `_require_relation`, with the ids it has seen. -/
def requireRows (host : Host) (seen : List String) : List Row → Except Fault (List String)
  | [] => .ok seen
  | row :: rows => do
      demand (row.asrtId ∉ seen)
        s!"projected relation repeats assertion id {host.entity.reprText row.asrtId}"
        "SCENARIO_ASSERTION_DUPLICATE"
      requireRows host (row.asrtId :: seen) rows

/-- The loop over the predicates in `_require_relation`. -/
def requireEntries (host : Host) (code : String) (seen : List String) :
    List (String × List Row) → Except Fault (List String)
  | [] => .ok seen
  | (predicateId, rows) :: rest => do
      demand (predicateId ≠ "") "projected relation predicate id is invalid" code
      let seen ← requireRows host seen rows
      requireEntries host code seen rest

/-- `_freeze_relation`. -/
def freezeRelation (host : Host) (r : Relation) : Except Fault Relation := do
  let _ ← requireEntries host "SCENARIO_RELATION_INVALID" [] r.entries
  .ok r.sorted

theorem requireRows_ok {host : Host} : ∀ {rows : List Row} {seen seen' : List String},
    requireRows host seen rows = .ok seen' ↔
      seen' = (rows.map (·.asrtId)).reverse ++ seen ∧ (rows.map (·.asrtId)).Nodup ∧
        ∀ w ∈ rows.map (·.asrtId), w ∉ seen := by
  intro rows
  induction rows with
  | nil =>
    intro seen seen'
    simp [requireRows, eq_comm]
  | cons row rows ih =>
    intro seen seen'
    unfold requireRows
    rw [bind_unit_ok_iff, demand_ok_iff, ih, List.map_cons, List.nodup_cons, List.reverse_cons,
      List.append_assoc, List.singleton_append, List.forall_mem_cons]
    simp only [decide_eq_true_eq, List.mem_cons, not_or]
    constructor
    · rintro ⟨hfresh, hseen, hnodup, hrest⟩
      exact ⟨hseen, ⟨fun hmem => (hrest _ hmem).1 rfl, hnodup⟩, hfresh, fun w hw => (hrest w hw).2⟩
    · rintro ⟨hseen, ⟨hnew, hnodup⟩, hfresh, hrest⟩
      exact ⟨hfresh, hseen, hnodup, fun w hw => ⟨fun heq => hnew (heq ▸ hw), hrest w hw⟩⟩

theorem requireEntries_ok {host : Host} {code : String} :
    ∀ {entries : List (String × List Row)} {seen : List String},
      (∃ seen', requireEntries host code seen entries = .ok seen') ↔
        (∀ p ∈ Dict.keys entries, p ≠ "") ∧
          (entries.flatMap fun p => p.2.map (·.asrtId)).Nodup ∧
          ∀ w ∈ entries.flatMap fun p => p.2.map (·.asrtId), w ∉ seen := by
  intro entries
  induction entries with
  | nil =>
    intro seen
    simp [requireEntries, Dict.keys]
  | cons p entries ih =>
    intro seen
    obtain ⟨predicateId, rows⟩ := p
    have hstep : (∃ seen', requireEntries host code seen ((predicateId, rows) :: entries) =
        .ok seen') ↔ predicateId ≠ "" ∧ ∃ s, requireRows host seen rows = .ok s ∧
          ∃ seen', requireEntries host code s entries = .ok seen' := by
      constructor
      · rintro ⟨seen', h⟩
        rw [requireEntries, bind_unit_ok_iff, demand_ok_iff, bind_ok_iff] at h
        obtain ⟨hname, s, hs, hrest⟩ := h
        exact ⟨of_decide_eq_true hname, s, hs, seen', hrest⟩
      · rintro ⟨hname, s, hs, seen', hrest⟩
        refine ⟨seen', ?_⟩
        rw [requireEntries, bind_unit_ok_iff, demand_ok_iff, bind_ok_iff]
        exact ⟨decide_eq_true hname, s, hs, hrest⟩
    rw [hstep]
    simp only [ih, requireRows_ok, Dict.keys, List.map_cons, List.forall_mem_cons,
      List.flatMap_cons, List.nodup_append, List.mem_append]
    constructor
    · rintro ⟨hname, s, ⟨rfl, hnodup, hseen⟩, hnames, hrest, hfresh⟩
      refine ⟨⟨hname, hnames⟩, ⟨hnodup, hrest, ?_⟩, ?_⟩
      · intro a ha b hb hab
        exact (List.mem_append.not.mp (hfresh b hb)) (.inl (List.mem_reverse.mpr (hab ▸ ha)))
      · rintro w (hw | hw)
        · exact hseen w hw
        · exact fun hws => hfresh w hw (List.mem_append.mpr (.inr hws))
    · rintro ⟨⟨hname, hnames⟩, ⟨hnodup, hrest, hapart⟩, hseen⟩
      refine ⟨hname, _, ⟨rfl, hnodup, fun w hw => hseen w (.inl hw)⟩, hnames, hrest, ?_⟩
      intro w hw hmem
      rcases List.mem_append.mp hmem with hmem | hmem
      · exact hapart w (List.mem_reverse.mp hmem) w hw rfl
      · exact hseen w (.inr hw) hmem

/-- What a relation is checked for before it is used. -/
structure Relation.Sound (r : Relation) : Prop where
  named : ∀ p ∈ r.predicates, p ≠ ""
  distinct : r.witnesses.Nodup

theorem freezeRelation_ok_iff {host : Host} {r r' : Relation} :
    freezeRelation host r = .ok r' ↔ r.Sound ∧ r' = r.sorted := by
  have hsound : (∃ seen, requireEntries host "SCENARIO_RELATION_INVALID" [] r.entries = .ok seen) ↔
      r.Sound := by
    rw [requireEntries_ok]
    constructor
    · rintro ⟨hnamed, hdistinct, _⟩
      exact ⟨hnamed, hdistinct⟩
    · rintro ⟨hnamed, hdistinct⟩
      exact ⟨hnamed, hdistinct, fun w _ => by simp⟩
  unfold freezeRelation
  rw [bind_ok_iff, ← hsound]
  constructor
  · rintro ⟨seen, hseen, h⟩
    exact ⟨⟨seen, hseen⟩, (Except.ok.inj h).symm⟩
  · rintro ⟨⟨seen, hseen⟩, rfl⟩
    exact ⟨seen, hseen, rfl⟩

end FactGraph.Scenario
