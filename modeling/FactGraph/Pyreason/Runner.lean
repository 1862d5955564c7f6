import FactGraph.Pyreason.Session
import FactGraph.View.Projector

/-!
# Facts on their way to PyReason and back

`_materialize_edb_session` of `adapters/pyreason/engine_eval.py` and `adapters/pyreason/runner.py`:
the facts of a view are written into a session, and what the engine derives is read into a second one.

An entity goes by its reference, in both directions; of an edge only the text of its component comes
back (`readComponent`).
-/

namespace FactGraph.Pyreason

open Protocol Check

/-! ## Bounds -/

/-- The number of `_parse_bounded_float`, before its range is checked. -/
def readFloat (host : Host) (value : String) : Option F64 :=
  if value.startsWith "0x" ∧ value.length = 18 then
    (host.hexInt? value).map fun n => ⟨UInt64.ofNat n⟩
  else host.float? value

/-- `_parse_bounded_float`. -/
def parseBoundedFloat (host : Host) (value : String) : Option F64 :=
  (readFloat host value).filter inUnit

/-- `_edb_bound_for_value`. -/
def edbBoundForValue (host : Host) (value : String) : Bound :=
  match parseBoundedFloat host value with
  | none => .certain
  | some x => ⟨x, x⟩

/-! ## The facts of a view -/

/-- A step from which a fact holds, and one up to which. -/
abbrev ActiveRange := Nat × Option Nat

/-- The arguments of a write for a fact with this value. -/
def writeOptions (host : Host) (schema : List SchemaPred) (predId value : String)
    (active : ActiveRange) : WriteOptions where
  bound := if predId ∈ boundedPredIds schema then edbBoundForValue host value else .certain
  activeFrom := active.1
  activeTo := active.2.map Int.ofNat

/-- `_write_projected_pyreason_fact`. -/
def writeProjectedPyreasonFact (host : Host) (s : Session) (predId : String) (factTuple : Rules.Fact)
    (active : ActiveRange) : Except Err Session :=
  if predId ∈ relationshipPredIds s.schema then
    match factTuple with
    | fromCell :: toCell :: rest =>
        let value := match rest with
          | v :: _ => host.str v
          | [] => ""
        s.writeEdgeFact host predId (host.str fromCell) (host.str toCell) value
          (writeOptions host s.schema predId value active)
    | _ => .ok s
  else
    match factTuple with
    | nodeCell :: rest =>
        let value := match rest with
          | v :: _ => host.str v
          | [] => "true"
        s.writeNodeFact host predId (host.str nodeCell) value
          (writeOptions host s.schema predId value active)
    | [] => .ok s

/-- A fact to be written: its predicate, its cells and when it holds. -/
structure Placed where
  predId : String
  factTuple : Rules.Fact
  active : ActiveRange

/-- The loops of `_materialize_edb_session`. -/
def writeAll (host : Host) (s : Session) : List Placed → Except Err Session
  | [] => .ok s
  | fact :: facts => do
      let s ← writeProjectedPyreasonFact host s fact.predId fact.factTuple fact.active
      writeAll host s facts

/-- `_materialize_edb_session`. -/
def materializeEdbSession (host : Host) (schema : List SchemaPred) (facts : List Placed) :
    Except Err Session :=
  writeAll host { schema := schema } facts

/-! ## What the engine answers -/

/-- `pred_lookup`: of the predicates with a short name, the last. -/
def predLookup (schema : List SchemaPred) (name : String) : Option String :=
  (schema.reverse.find? fun pred => predShortName pred.predId = name).map SchemaPred.predId

/-- What a component of an interpretation is about. -/
inductive Component where
  | node (predId nodeRef : String)
  | edge (predId fromRef toRef : String)
  deriving DecidableEq

/-- The predicate and the entities that `_extract_derived_facts` reads off a component and the name of
a label. -/
def readComponent (schema : List SchemaPred) (component predName : String) : Option Component :=
  match predLookup schema predName with
  | none => none
  | some predId =>
      if predId ∈ relationshipPredIds schema then
        (parseEdgeComponent component).map fun p => .edge predId p.1 p.2
      else some (.node predId component)

/-- The state of the loops of `_extract_derived_facts`: the session, and the keys that are known. -/
structure Extraction where
  derived : Session
  nodeKeys : List (String × String)
  edgeKeys : List (String × String × String)

/-- The metadata of a derived fact. -/
def derivedMeta (timestep : Nat) : Meta :=
  [("source", .str "pyreason_derived"), ("derived_at_timestep", .int timestep)]

/-- One label of one component at one step. -/
def extractOne (host : Host) (st : Extraction) (timestep : Nat) (component predName : String)
    (bound : Bound) : Except Err Extraction :=
  if bound.lo.isZero ∧ bound.hi.isZero then .ok st
  else
    let opts : WriteOptions :=
      { bound := bound, activeFrom := timestep, metadata := some (derivedMeta timestep) }
    match readComponent st.derived.schema component predName with
    | none => .ok st
    | some (.edge predId fromRef toRef) =>
        if (fromRef, toRef, predName) ∈ st.edgeKeys then .ok st
        else do
          let value := if predId ∈ boundedPredIds st.derived.schema then host.floatStr bound.lo else ""
          let derived ← st.derived.writeEdgeFact host predId fromRef toRef value opts
          .ok { st with derived := derived, edgeKeys := (fromRef, toRef, predName) :: st.edgeKeys }
    | some (.node predId nodeRef) =>
        if st.nodeKeys.contains (nodeRef, predName) then .ok st
        else do
          let value := if predId ∈ boundedPredIds st.derived.schema then host.floatStr bound.lo
            else if bound.lo = one ∧ bound.hi = one then "true" else "false"
          let derived ← st.derived.writeNodeFact host predId nodeRef value opts
          .ok { st with derived := derived, nodeKeys := (nodeRef, predName) :: st.nodeKeys }

/-- A label of a component, with the step and the interval that the engine gives it. -/
structure Label where
  timestep : Nat
  component : String
  predName : String
  bound : Bound

/-- The loops of `_extract_derived_facts`, over the labels of the interpretation in the order of the
steps. -/
def extractAll (host : Host) (st : Extraction) : List Label → Except Err Extraction
  | [] => .ok st
  | l :: ls => do
      let st ← if l.timestep = 0 then .ok st
        else extractOne host st l.timestep l.component l.predName l.bound
      extractAll host st ls

/-- `_extract_derived_facts`. -/
def extractDerivedFacts (host : Host) (interpretation : List Label) (input : Session) :
    Except Err Session := do
  let st ← extractAll host
    { derived := { schema := input.schema }
      nodeKeys := input.nodeFacts.map fun fact => (fact.nodeRef, predShortName fact.predId)
      edgeKeys := input.edgeFacts.map fun fact =>
        (fact.fromRef, fact.toRef, predShortName fact.predId) }
    interpretation
  .ok st.derived

/-! ## What is written -/

/-- The nodes of a placed fact: two of a relationship, one of any other predicate. -/
def Placed.cells (schema : List SchemaPred) (fact : Placed) : List Rules.Value :=
  if fact.predId ∈ relationshipPredIds schema then
    match fact.factTuple with
    | fromCell :: toCell :: _ => [fromCell, toCell]
    | _ => []
  else fact.factTuple.take 1

/-- A fact that is an edge between two cells. -/
def Placed.IsEdge (schema : List SchemaPred) (fact : Placed) (fromCell toCell : Rules.Value) : Prop :=
  fact.predId ∈ relationshipPredIds schema ∧ ∃ rest, fact.factTuple = fromCell :: toCell :: rest

/-- A written fact leaves the schema, and adds an edge fact just if it is an edge. -/
theorem writeProjected_edges {host : Host} {s s' : Session} {fact : Placed}
    (h : writeProjectedPyreasonFact host s fact.predId fact.factTuple fact.active = .ok s') :
    s'.schema = s.schema ∧
      ((∃ a b e, fact.IsEdge s.schema a b ∧ s'.edgeFacts = s.edgeFacts ++ [e] ∧
          e.fromRef = host.str a ∧ e.toRef = host.str b ∧ host.str a ≠ "" ∧ host.str b ≠ "") ∨
        (∀ a b, ¬ fact.IsEdge s.schema a b) ∧ s'.edgeFacts = s.edgeFacts) := by
  unfold writeProjectedPyreasonFact at h
  split at h
  · rename_i hrel
    split at h
    · rename_i a b rest heq
      obtain ⟨⟨-, -, ha, hb⟩, e, -, hfrom, hto, -, -, -, rfl⟩ := writeEdgeFact_ok h
      exact ⟨rfl, .inl ⟨a, b, e, ⟨hrel, rest, heq⟩, rfl, hfrom, hto, ha, hb⟩⟩
    · rename_i hshort
      cases h
      exact ⟨rfl, .inr ⟨fun a b hedge => hedge.2.elim fun rest heq => hshort a b rest heq, rfl⟩⟩
  · rename_i hnode
    have hnone : ∀ a b, ¬ fact.IsEdge s.schema a b := fun a b hedge => hnode hedge.1
    split at h
    · obtain ⟨-, e, -, -, -, -, -, rfl⟩ := writeNodeFact_ok h
      exact ⟨rfl, .inr ⟨hnone, rfl⟩⟩
    · cases h
      exact ⟨rfl, .inr ⟨hnone, rfl⟩⟩

/-- **The edges of a session are those of its facts.** -/
theorem edges_of_writeAll {host : Host} {facts : List Placed} {s s' : Session}
    (h : writeAll host s facts = .ok s') :
    (∀ fact ∈ facts, ∀ a b, fact.IsEdge s.schema a b → host.str a ≠ "" ∧ host.str b ≠ "") ∧
      ∀ p : String × String, p ∈ s'.edgeFacts.map (fun e => (e.fromRef, e.toRef)) ↔
        p ∈ s.edgeFacts.map (fun e => (e.fromRef, e.toRef)) ∨
          ∃ fact ∈ facts, ∃ a b, fact.IsEdge s.schema a b ∧ p = (host.str a, host.str b) := by
  induction facts generalizing s with
  | nil =>
    cases h
    simp
  | cons fact facts ih =>
    rw [writeAll, bind_ok_iff] at h
    obtain ⟨s₁, hfact, hrest⟩ := h
    obtain ⟨hschema, hstep⟩ := writeProjected_edges hfact
    obtain ⟨hne, hmem⟩ := ih hrest
    rw [hschema] at hne hmem
    rcases hstep with ⟨a, b, e, hedge, hedges, hfrom, hto, ha, hb⟩ | ⟨hnone, hedges⟩
    -- a fact is an edge between its two cells and no others
    · have hunique : ∀ a' b', fact.IsEdge s.schema a' b' → a' = a ∧ b' = b := by
        rintro a' b' ⟨-, rest', heq'⟩
        obtain ⟨-, rest, heq⟩ := hedge
        rw [heq] at heq'
        cases heq'
        exact ⟨rfl, rfl⟩
      constructor
      · intro fact' hfact' a' b' hedge'
        rcases List.mem_cons.mp hfact' with rfl | hfact'
        · obtain ⟨rfl, rfl⟩ := hunique a' b' hedge'
          exact ⟨ha, hb⟩
        · exact hne fact' hfact' a' b' hedge'
      · intro p
        rw [hmem p, hedges, List.map_append, List.mem_append, List.map_singleton,
          List.mem_singleton, hfrom, hto]
        constructor
        · rintro ((h | rfl) | ⟨fact', hfact', rest⟩)
          · exact .inl h
          · exact .inr ⟨fact, List.mem_cons_self, a, b, hedge, rfl⟩
          · exact .inr ⟨fact', List.mem_cons_of_mem _ hfact', rest⟩
        · rintro (h | ⟨fact', hfact', a', b', hedge', rfl⟩)
          · exact .inl (.inl h)
          · rcases List.mem_cons.mp hfact' with rfl | hfact'
            · obtain ⟨rfl, rfl⟩ := hunique a' b' hedge'
              exact .inl (.inr rfl)
            · exact .inr ⟨fact', hfact', a', b', hedge', rfl⟩
    · constructor
      · intro fact' hfact' a' b' hedge'
        rcases List.mem_cons.mp hfact' with rfl | hfact'
        · exact absurd hedge' (hnone a' b')
        · exact hne fact' hfact' a' b' hedge'
      · intro p
        rw [hmem p, hedges]
        constructor
        · rintro (h | ⟨fact', hfact', rest⟩)
          · exact .inl h
          · exact .inr ⟨fact', List.mem_cons_of_mem _ hfact', rest⟩
        · rintro (h | ⟨fact', hfact', a', b', hedge', rfl⟩)
          · exact .inl h
          · rcases List.mem_cons.mp hfact' with rfl | hfact'
            · exact absurd hedge' (hnone a' b')
            · exact .inr ⟨fact', hfact', a', b', hedge', rfl⟩

end FactGraph.Pyreason
