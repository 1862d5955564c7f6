import FactGraph.Codec.Objects

/-!
# Evidence graphs

`application/explain/evidence_tree.py`: the graph that explains a row, and the codec that writes it
into `dict`s, lists and leaves and reads it back.

The constructors look at little. A field that is declared a `Literal` may hold any string, a text may
be empty, the certainty of a verdict may be missing, and an event of a timeline may be anything. The
reader looks at all of it.
-/

namespace FactGraph.Explain

open Protocol Store Check Codec

/-! ## Objects -/

/-- An object that is no mapping, list or tuple. -/
inductive Leaf (V : Type) where
  | none
  | bool (b : Bool)
  | int (i : Int)
  | float (x : F64)
  | str (s : String)
  | other (v : V)

/-- A Python object. `K` are the keys of mappings that are no strings. -/
inductive PyValue (K V : Type) where
  | leaf (l : Leaf V)
  | list (xs : List (PyValue K V))
  | tuple (xs : List (PyValue K V))
  | mapping (fs : List (Key K × PyValue K V))

/-- What the writer builds: `dict`s whose keys are strings, lists and leaves. -/
abbrev Row (V : Type) := Doc (Leaf V)

/-- What the codec takes from the objects: `str` of a key and `bool` of a value. -/
structure Host (K V : Type) where
  keyStr : K → String
  truthy : V → Bool

/-- What the codec raises. -/
inductive CodecErr where
  | valueError (msg : String)
  | typeError (msg : String)
  | protocolShape (msg : String)
  deriving DecidableEq, Repr

/-! ## Certainties -/

/-- `_CERTAINTY_KINDS`. -/
def certaintyKinds : List String := ["boolean", "probabilistic", "possibilistic"]

/-- A finite number between 0 and 1. -/
def IsBound (x : F64) : Prop := x.isFinite = true ∧ 0 ≤ x.toRat ∧ x.toRat ≤ 1

instance (x : F64) : Decidable (IsBound x) := inferInstanceAs (Decidable (_ ∧ _))

/-- `Certainty`. -/
structure Certainty where
  lo : F64
  hi : F64
  kind : String
  kind_mem : kind ∈ certaintyKinds
  lo_bound : IsBound lo
  hi_bound : IsBound hi
  lo_le : lo.toRat ≤ hi.toRat

/-- What `_require_probability_bound` raises on a float. -/
def boundErr (x : F64) (fieldName : String) : CodecErr :=
  if x.isFinite then .protocolShape s!"{fieldName} must be between 0.0 and 1.0"
  else .protocolShape s!"{fieldName} must be finite"

/-- The constructor of `Certainty`, on floats. -/
def Certainty.make (lo hi : F64) (kind : String) : Except CodecErr Certainty :=
  if hkind : kind ∈ certaintyKinds then
    if hlo : IsBound lo then
      if hhi : IsBound hi then
        if hle : lo.toRat ≤ hi.toRat then .ok ⟨lo, hi, kind, hkind, hlo, hhi, hle⟩
        else .error (.protocolShape "Certainty.lo must be <= Certainty.hi")
      else .error (boundErr hi "Certainty.hi")
    else .error (boundErr lo "Certainty.lo")
  else .error (.protocolShape "Certainty.kind must be boolean, probabilistic, or possibilistic")

/-- The bits of `1.0`. -/
def one : F64 := ⟨0x3ff0000000000000⟩

/-- `BOOLEAN_CERTAINTY`. -/
def booleanCertainty : Certainty where
  lo := one
  hi := one
  kind := "boolean"
  kind_mem := by decide
  lo_bound := by decide +kernel
  hi_bound := by decide +kernel
  lo_le := by decide +kernel

/-! ## Graphs -/

section Graphs

variable (K V : Type)

/-- `BoundVar | Const`. -/
inductive EvidenceTerm where
  | boundVar (name : String) (value : PyValue K V) (boundBy : Option String)
  | const (value : PyValue K V)

/-- `Source`. -/
structure Source where
  ref : String
  field : Option String
  value : PyValue K V
  metadata : List (Key K × PyValue K V)

/-- `PortRef`. -/
structure PortRef where
  ruleOccurrenceAlias : String
  portName : String

/-- `Fact | Compare | Builtin | Aggregate`. -/
inductive AtomForm where
  | fact (predicate : String) (terms : List (EvidenceTerm K V))
  | compare (op : String) (left right : EvidenceTerm K V)
  | builtin (kind : String) (operands : List (EvidenceTerm K V))
  | aggregate (kind : String) (bodyTerms headTerms : List (EvidenceTerm K V))

/-- `Holds | Fails | NotReached`. The certainty is declared, and not checked, to be one. -/
inductive Verdict where
  | holds (certainty : Option Certainty) (support : List (Source K V))
  | fails (certainty : Option Certainty) (support : List (Source K V))
  | notReached (blockedBy : Option String)

/-- `EvidenceAtom`. -/
structure EvidenceAtom where
  form : AtomForm K V
  verdict : Verdict K V
  atomId : String
  reprText : Option String
  negated : Bool
  timestep : Option Int

/-- `EvidenceJoin`. -/
structure EvidenceJoin where
  left : PortRef
  right : PortRef
  status : String
  joinId : String

/-- `PolicyConditionRole`. -/
def conditionRoles : List String := ["left_field", "right_field", "compare"]

/-- `EvidencePolicyCondition`. -/
structure EvidencePolicyCondition where
  policyNodeId : String
  conditionId : String
  role : String
  atom : EvidenceAtom K V
  policyNodeId_ne : policyNodeId ≠ ""
  conditionId_ne : conditionId ≠ ""
  role_mem : role ∈ conditionRoles

variable {K V} in
/-- `(policy_node_id, condition_id, role)`. -/
def EvidencePolicyCondition.coordinates (c : EvidencePolicyCondition K V) :
    String × String × String :=
  (c.policyNodeId, c.conditionId, c.role)

/-- `EvidenceRule`. -/
structure EvidenceRule where
  occurrenceAlias : String
  ruleId : String
  role : String
  status : String
  reprText : Option String
  ports : List (Key K × PyValue K V)
  atoms : List (EvidenceAtom K V)

/-- `EvidenceTree`. -/
structure EvidenceTree where
  treeId : String
  status : String
  rules : List (EvidenceRule K V)
  joins : List EvidenceJoin
  certainty : Option Certainty
  metadata : List (Key K × PyValue K V)
  policyConditions : List (EvidencePolicyCondition K V)
  /-- `tree.policy_conditions must have unique coordinates`. -/
  coordinates_nodup : (policyConditions.map (·.coordinates)).Nodup

/-- An event of a timeline. -/
inductive Event where
  | atom (a : EvidenceAtom K V)
  | other (v : PyValue K V)

/-- `EvidenceTimeline`. -/
structure EvidenceTimeline where
  timelineId : String
  status : String
  events : List (Event K V)
  certainty : Option Certainty
  metadata : List (Key K × PyValue K V)

/-- `EvidenceTree | EvidenceTimeline`. -/
inductive EvidencePath where
  | tree (t : EvidenceTree K V)
  | timeline (t : EvidenceTimeline K V)

/-- `EvidenceGraph`. -/
structure EvidenceGraph where
  graphId : String
  engine : String
  layoutHint : String
  subjectBinding : List (Key K × PyValue K V)
  paths : List (EvidencePath K V)
  certainty : Option Certainty
  metadata : List (Key K × PyValue K V)

end Graphs

/-- The atom of an event. -/
def Event.atom? {K V : Type} : Event K V → Option (EvidenceAtom K V)
  | .atom a => some a
  | .other _ => none

/-! ## Writing -/

section Writing

variable {K V : Type} (host : Host K V)

mutual

/-- `_to_jsonable`. -/
def toJsonable : PyValue K V → Row V
  | .leaf l => .leaf l
  | .list xs => .arr (toJsonableItems xs)
  | .tuple xs => .arr (toJsonableItems xs)
  | .mapping fs => .obj (Dict.update [] (toJsonableFields fs))

def toJsonableItems : List (PyValue K V) → List (Row V)
  | [] => []
  | x :: xs => toJsonable x :: toJsonableItems xs

def toJsonableFields : List (Key K × PyValue K V) → List (String × Row V)
  | [] => []
  | (key, x) :: fs => (key.text host.keyStr, toJsonable x) :: toJsonableFields fs

end

def str (s : String) : Row V := .leaf (.str s)

def optStr : Option String → Row V
  | none => .leaf .none
  | some s => str s

def optInt : Option Int → Row V
  | none => .leaf .none
  | some i => .leaf (.int i)

/-- `_to_jsonable` of a mapping. -/
def mappingToJsonable (fs : List (Key K × PyValue K V)) : Row V := toJsonable host (.mapping fs)

/-- `_certainty_to_dict`. -/
def certaintyToDict : Option Certainty → Row V
  | none => .leaf .none
  | some c => .obj [("lo", .leaf (.float c.lo)), ("hi", .leaf (.float c.hi)), ("kind", str c.kind)]

/-- `_source_to_dict`. -/
def sourceToDict (source : Source K V) : Row V :=
  .obj [("ref", str source.ref), ("field", optStr source.field),
    ("value", toJsonable host source.value), ("meta", mappingToJsonable host source.metadata)]

/-- `_verdict_to_dict`. -/
def verdictToDict : Verdict K V → Row V
  | .holds certainty support =>
      .obj [("kind", str "holds"), ("certainty", certaintyToDict certainty),
        ("support", .arr (support.map (sourceToDict host)))]
  | .fails certainty support =>
      .obj [("kind", str "fails"), ("certainty", certaintyToDict certainty),
        ("support", .arr (support.map (sourceToDict host)))]
  | .notReached blockedBy => .obj [("kind", str "not_reached"), ("blocked_by", optStr blockedBy)]

/-- `_term_to_dict`. -/
def termToDict : EvidenceTerm K V → Row V
  | .boundVar name value boundBy =>
      .obj [("kind", str "bound_var"), ("name", str name), ("value", toJsonable host value),
        ("bound_by", optStr boundBy)]
  | .const value => .obj [("kind", str "const"), ("value", toJsonable host value)]

/-- `_form_to_dict`. -/
def formToDict : AtomForm K V → Row V
  | .fact predicate terms =>
      .obj [("kind", str "fact"), ("predicate", str predicate),
        ("terms", .arr (terms.map (termToDict host)))]
  | .compare op left right =>
      .obj [("kind", str "compare"), ("op", str op), ("left", termToDict host left),
        ("right", termToDict host right)]
  | .builtin kind operands =>
      .obj [("kind", str "builtin"), ("builtin_kind", str kind),
        ("operands", .arr (operands.map (termToDict host)))]
  | .aggregate kind bodyTerms headTerms =>
      .obj [("kind", str "aggregate"), ("aggregate_kind", str kind),
        ("body_terms", .arr (bodyTerms.map (termToDict host))),
        ("head_terms", .arr (headTerms.map (termToDict host)))]

/-- `_atom_to_dict`. -/
def atomToDict (atom : EvidenceAtom K V) : Row V :=
  .obj [("form", formToDict host atom.form), ("verdict", verdictToDict host atom.verdict),
    ("atom_id", str atom.atomId), ("repr_text", optStr atom.reprText),
    ("negated", .leaf (.bool atom.negated)), ("timestep", optInt atom.timestep)]

/-- `_port_ref_to_dict`. -/
def portRefToDict (port : PortRef) : Row V :=
  .obj [("rule_occurrence_alias", str port.ruleOccurrenceAlias), ("port_name", str port.portName)]

/-- `_policy_condition_to_dict`. -/
def policyConditionToDict (condition : EvidencePolicyCondition K V) : Row V :=
  .obj [("policy_node_id", str condition.policyNodeId), ("condition_id", str condition.conditionId),
    ("role", str condition.role), ("atom", atomToDict host condition.atom)]

/-- `_join_to_dict`. -/
def joinToDict (join : EvidenceJoin) : Row V :=
  .obj [("left", portRefToDict join.left), ("right", portRefToDict join.right),
    ("status", str join.status), ("join_id", str join.joinId)]

/-- `_rule_to_dict`. -/
def ruleToDict (rule : EvidenceRule K V) : Row V :=
  .obj [("occurrence_alias", str rule.occurrenceAlias), ("rule_id", str rule.ruleId),
    ("role", str rule.role), ("status", str rule.status), ("repr_text", optStr rule.reprText),
    ("ports", mappingToJsonable host rule.ports), ("atoms", .arr (rule.atoms.map (atomToDict host)))]

/-- `_path_to_dict`. -/
def pathToDict : EvidencePath K V → Row V
  | .tree t =>
      .obj ([("kind", str "tree"), ("tree_id", str t.treeId), ("status", str t.status),
        ("rules", .arr (t.rules.map (ruleToDict host))), ("joins", .arr (t.joins.map joinToDict)),
        ("certainty", certaintyToDict t.certainty),
        ("metadata", mappingToJsonable host t.metadata)] ++
        if t.policyConditions.isEmpty then []
        else [("policy_conditions", .arr (t.policyConditions.map (policyConditionToDict host)))])
  | .timeline t =>
      .obj [("kind", str "timeline"), ("timeline_id", str t.timelineId), ("status", str t.status),
        ("events", .arr ((t.events.filterMap Event.atom?).map (atomToDict host))),
        ("certainty", certaintyToDict t.certainty), ("metadata", mappingToJsonable host t.metadata)]

/-- `evidence_graph_to_dict`. -/
def evidenceGraphToDict (graph : EvidenceGraph K V) : Row V :=
  .obj [("graph_id", str graph.graphId), ("engine", str graph.engine),
    ("layout_hint", str graph.layoutHint),
    ("subject_binding", mappingToJsonable host graph.subjectBinding),
    ("paths", .arr (graph.paths.map (pathToDict host))),
    ("certainty", certaintyToDict graph.certainty),
    ("metadata", mappingToJsonable host graph.metadata)]

end Writing

/-! ## Reading -/

section Reading

variable {K V : Type} (host : Host K V)

mutual

/-- `_from_jsonable`. The keys of a `dict` are strings, each of them once. -/
def fromJsonable : Row V → PyValue K V
  | .leaf l => .leaf l
  | .arr xs => .tuple (fromJsonableItems xs)
  | .obj fs => .mapping (fromJsonableFields fs)

def fromJsonableItems : List (Row V) → List (PyValue K V)
  | [] => []
  | x :: xs => fromJsonable x :: fromJsonableItems xs

def fromJsonableFields : List (String × Row V) → List (Key K × PyValue K V)
  | [] => []
  | (key, x) :: fs => (.str key, fromJsonable x) :: fromJsonableFields fs

end

/-- `row.get(key)`. -/
def field (fs : List (String × Row V)) (key : String) : Row V :=
  (Dict.get? fs key).getD (.leaf .none)

/-- `row.get(key, [])`. -/
def fieldOrEmpty (fs : List (String × Row V)) (key : String) : Row V :=
  (Dict.get? fs key).getD (.arr [])

/-- `isinstance(row, Mapping)`. -/
def requireRow (msg : String) : Row V → Except CodecErr (List (String × Row V))
  | .obj fs => .ok fs
  | .leaf _ | .arr _ => .error (.valueError msg)

/-- `_require_list`. -/
def requireList (fieldName : String) : Row V → Except CodecErr (List (Row V))
  | .arr xs => .ok xs
  | .leaf _ | .obj _ => .error (.valueError s!"{fieldName} must be list")

/-- `_require_mapping`. -/
def requireMapping (fieldName : String) :
    Option (Row V) → Except CodecErr (List (Key K × PyValue K V))
  | none => .ok []
  | some (.obj fs) => .ok (fromJsonableFields fs)
  | some (.leaf _) | some (.arr _) => .error (.valueError s!"{fieldName} must be Mapping[str, Any]")

/-- `_require_str`. -/
def requireStr (fieldName : String) : Row V → Except CodecErr String
  | .leaf (.str s) =>
      if s ≠ "" then .ok s else .error (.valueError s!"{fieldName} must be non-empty string")
  | _ => .error (.valueError s!"{fieldName} must be non-empty string")

/-- `_optional_str`. -/
def optionalStr (fieldName : String) : Row V → Except CodecErr (Option String)
  | .leaf .none => .ok none
  | row => (requireStr fieldName row).map some

/-- `_optional_int`. -/
def optionalInt (fieldName : String) : Row V → Except CodecErr (Option Int)
  | .leaf .none => .ok none
  | .leaf (.int i) => .ok (some i)
  | _ => .error (.valueError s!"{fieldName} must be int or None")

/-- `_require_float`. -/
def requireFloat (fieldName : String) : Row V → Except CodecErr F64
  | .leaf (.float x) => .ok x
  | .leaf (.int i) =>
      match floatOfInt? i with
      | some x => .ok x
      | none => .error (.valueError "int too large to convert to float")
  | _ => .error (.valueError s!"{fieldName} must be number")

/-- `value not in {..}`; a list and a `dict` have no hash. -/
def requireLiteral (allowed : List String) (msg : String) : Row V → Except CodecErr String
  | .leaf (.str s) => if s ∈ allowed then .ok s else .error (.valueError msg)
  | .leaf _ => .error (.valueError msg)
  | .arr _ => .error (.typeError "unhashable type: 'list'")
  | .obj _ => .error (.typeError "unhashable type: 'dict'")

/-- `TreeStatus`. -/
def treeStatuses : List String := ["holds", "fails", "not_reached"]

/-- `_require_tree_status`. -/
def requireTreeStatus (fieldName : String) : Row V → Except CodecErr String :=
  requireLiteral treeStatuses s!"{fieldName} must be holds, fails, or not_reached"

/-- `RuleRole`. -/
def ruleRoles : List String := ["head", "body"]

/-- `_require_role`. -/
def requireRole : Row V → Except CodecErr String :=
  requireLiteral ruleRoles "rule.role must be head or body"

/-- `_require_policy_condition_role`. -/
def requirePolicyConditionRole : Row V → Except CodecErr String :=
  requireLiteral conditionRoles
    "policy condition role must be left_field, right_field, or compare"

/-- `LayoutHint`. -/
def layoutHints : List String := ["tree", "timeline"]

/-- `_require_layout_hint`. -/
def requireLayoutHint : Row V → Except CodecErr String :=
  requireLiteral layoutHints "row.layout_hint must be tree or timeline"

/-- `_require_certainty_kind`. -/
def requireCertaintyKind : Row V → Except CodecErr String :=
  requireLiteral certaintyKinds
    "certainty.kind must be boolean, probabilistic, or possibilistic"

/-- `bool(value)`. -/
def truthy : Row V → Bool
  | .leaf .none => false
  | .leaf (.bool b) => b
  | .leaf (.int i) => i ≠ 0
  | .leaf (.float x) => !x.isZero
  | .leaf (.str s) => s ≠ ""
  | .leaf (.other v) => host.truthy v
  | .arr xs => !xs.isEmpty
  | .obj fs => !fs.isEmpty

/-- `_certainty_from_dict`. -/
def certaintyFromDict : Row V → Except CodecErr (Option Certainty)
  | .leaf .none => .ok none
  | row => do
      let fs ← requireRow "certainty row must be Mapping[str, Any] or None" row
      let lo ← requireFloat "certainty.lo" (field fs "lo")
      let hi ← requireFloat "certainty.hi" (field fs "hi")
      let kind ← requireCertaintyKind (field fs "kind")
      (Certainty.make lo hi kind).map some

/-- `_source_from_dict`. -/
def sourceFromDict (row : Row V) : Except CodecErr (Source K V) := do
  let fs ← requireRow "source row must be Mapping[str, Any]" row
  let ref ← requireStr "source.ref" (field fs "ref")
  let fieldName ← optionalStr "source.field" (field fs "field")
  let metadata ← requireMapping "source.meta" (Dict.get? fs "meta")
  .ok ⟨ref, fieldName, fromJsonable (field fs "value"), metadata⟩

/-- `_verdict_from_dict`. -/
def verdictFromDict (row : Row V) : Except CodecErr (Verdict K V) := do
  let fs ← requireRow "verdict row must be Mapping[str, Any]" row
  match field fs "kind" with
  | .leaf (.str "holds") => do
      let certainty ← certaintyFromDict (field fs "certainty")
      let support ← requireList "verdict.support" (fieldOrEmpty fs "support")
      let support ← mapOk sourceFromDict support
      .ok (.holds (some (certainty.getD booleanCertainty)) support)
  | .leaf (.str "fails") => do
      let certainty ← certaintyFromDict (field fs "certainty")
      let support ← requireList "verdict.support" (fieldOrEmpty fs "support")
      let support ← mapOk sourceFromDict support
      .ok (.fails (some (certainty.getD booleanCertainty)) support)
  | .leaf (.str "not_reached") =>
      (optionalStr "verdict.blocked_by" (field fs "blocked_by")).map .notReached
  | _ => .error (.valueError "verdict.kind must be holds, fails, or not_reached")

/-- `_term_from_dict`. -/
def termFromDict (row : Row V) : Except CodecErr (EvidenceTerm K V) := do
  let fs ← requireRow "term row must be Mapping[str, Any]" row
  match field fs "kind" with
  | .leaf (.str "bound_var") => do
      let name ← requireStr "term.name" (field fs "name")
      let boundBy ← optionalStr "term.bound_by" (field fs "bound_by")
      .ok (.boundVar name (fromJsonable (field fs "value")) boundBy)
  | .leaf (.str "const") => .ok (.const (fromJsonable (field fs "value")))
  | _ => .error (.valueError "term.kind must be 'bound_var' or 'const'")

/-- The terms of a form. -/
def termsFromDict (fieldName : String) (row : Row V) : Except CodecErr (List (EvidenceTerm K V)) := do
  let rows ← requireList fieldName row
  mapOk termFromDict rows

/-- `_form_from_dict`. -/
def formFromDict (row : Row V) : Except CodecErr (AtomForm K V) := do
  let fs ← requireRow "atom form row must be Mapping[str, Any]" row
  match field fs "kind" with
  | .leaf (.str "fact") => do
      let predicate ← requireStr "fact.predicate" (field fs "predicate")
      let terms ← termsFromDict "fact.terms" (fieldOrEmpty fs "terms")
      .ok (.fact predicate terms)
  | .leaf (.str "compare") => do
      let op ← requireStr "compare.op" (field fs "op")
      let left ← termFromDict (field fs "left")
      let right ← termFromDict (field fs "right")
      .ok (.compare op left right)
  | .leaf (.str "builtin") => do
      let kind ← requireStr "builtin.kind" (field fs "builtin_kind")
      let operands ← termsFromDict "builtin.operands" (fieldOrEmpty fs "operands")
      .ok (.builtin kind operands)
  | .leaf (.str "aggregate") => do
      let kind ← requireStr "aggregate.kind" (field fs "aggregate_kind")
      let bodyTerms ← termsFromDict "aggregate.body_terms" (fieldOrEmpty fs "body_terms")
      let headTerms ← termsFromDict "aggregate.head_terms" (fieldOrEmpty fs "head_terms")
      .ok (.aggregate kind bodyTerms headTerms)
  | _ => .error (.valueError "atom form kind must be fact, compare, builtin, or aggregate")

/-- `_atom_from_dict`. -/
def atomFromDict (row : Row V) : Except CodecErr (EvidenceAtom K V) := do
  let fs ← requireRow "atom row must be Mapping[str, Any]" row
  let form ← formFromDict (field fs "form")
  let verdict ← verdictFromDict (field fs "verdict")
  let atomId ← requireStr "atom.atom_id" (field fs "atom_id")
  let reprText ← optionalStr "atom.repr_text" (field fs "repr_text")
  let timestep ← optionalInt "atom.timestep" (field fs "timestep")
  .ok ⟨form, verdict, atomId, reprText, truthy host (field fs "negated"), timestep⟩

/-- `_port_ref_from_dict`. -/
def portRefFromDict (row : Row V) : Except CodecErr PortRef := do
  let fs ← requireRow "port ref row must be Mapping[str, Any]" row
  let ruleOccurrenceAlias ← requireStr "port.rule_occurrence_alias" (field fs "rule_occurrence_alias")
  let portName ← requireStr "port.port_name" (field fs "port_name")
  .ok ⟨ruleOccurrenceAlias, portName⟩

/-- The constructor of `EvidencePolicyCondition`. -/
def EvidencePolicyCondition.make (policyNodeId conditionId role : String) (atom : EvidenceAtom K V) :
    Except CodecErr (EvidencePolicyCondition K V) :=
  if hnode : policyNodeId ≠ "" then
    if hcondition : conditionId ≠ "" then
      if hrole : role ∈ conditionRoles then
        .ok ⟨policyNodeId, conditionId, role, atom, hnode, hcondition, hrole⟩
      else .error (.valueError "policy condition role is invalid")
    else .error (.valueError "condition_id must be a non-empty string")
  else .error (.valueError "policy_node_id must be a non-empty string")

/-- `_policy_condition_from_dict`. -/
def policyConditionFromDict (row : Row V) : Except CodecErr (EvidencePolicyCondition K V) := do
  let fs ← requireRow "policy condition row must be Mapping[str, Any]" row
  let policyNodeId ← requireStr "policy_condition.policy_node_id" (field fs "policy_node_id")
  let conditionId ← requireStr "policy_condition.condition_id" (field fs "condition_id")
  let role ← requirePolicyConditionRole (field fs "role")
  let atom ← atomFromDict host (field fs "atom")
  EvidencePolicyCondition.make policyNodeId conditionId role atom

/-- `_join_from_dict`. -/
def joinFromDict (row : Row V) : Except CodecErr EvidenceJoin := do
  let fs ← requireRow "join row must be Mapping[str, Any]" row
  let left ← portRefFromDict (field fs "left")
  let right ← portRefFromDict (field fs "right")
  let status ← requireTreeStatus "join.status" (field fs "status")
  let joinId ← requireStr "join.join_id" (field fs "join_id")
  .ok ⟨left, right, status, joinId⟩

/-- `_rule_from_dict`. -/
def ruleFromDict (row : Row V) : Except CodecErr (EvidenceRule K V) := do
  let fs ← requireRow "rule row must be Mapping[str, Any]" row
  let atoms ← requireList "rule.atoms" (fieldOrEmpty fs "atoms")
  let occurrenceAlias ← requireStr "rule.occurrence_alias" (field fs "occurrence_alias")
  let ruleId ← requireStr "rule.rule_id" (field fs "rule_id")
  let role ← requireRole (field fs "role")
  let status ← requireTreeStatus "rule.status" (field fs "status")
  let reprText ← optionalStr "rule.repr_text" (field fs "repr_text")
  let ports ← requireMapping "rule.ports" (Dict.get? fs "ports")
  let atoms ← mapOk (atomFromDict host) atoms
  .ok ⟨occurrenceAlias, ruleId, role, status, reprText, ports, atoms⟩

/-- The constructor of `EvidenceTree`. -/
def EvidenceTree.make (treeId status : String) (rules : List (EvidenceRule K V))
    (joins : List EvidenceJoin) (policyConditions : List (EvidencePolicyCondition K V))
    (certainty : Option Certainty) (metadata : List (Key K × PyValue K V)) :
    Except CodecErr (EvidenceTree K V) :=
  if h : (policyConditions.map (·.coordinates)).Nodup then
    .ok ⟨treeId, status, rules, joins, certainty, metadata, policyConditions, h⟩
  else .error (.valueError "tree.policy_conditions must have unique coordinates")

/-- `_path_from_dict`. -/
def pathFromDict (row : Row V) : Except CodecErr (EvidencePath K V) := do
  let fs ← requireRow "path row must be Mapping[str, Any]" row
  match field fs "kind" with
  | .leaf (.str "tree") => do
      let rules ← requireList "tree.rules" (field fs "rules")
      let joins ← requireList "tree.joins" (fieldOrEmpty fs "joins")
      let policyConditions ← requireList "tree.policy_conditions" (fieldOrEmpty fs "policy_conditions")
      let treeId ← requireStr "tree.tree_id" (field fs "tree_id")
      let status ← requireTreeStatus "tree.status" (field fs "status")
      let rules ← mapOk (ruleFromDict host) rules
      let joins ← mapOk joinFromDict joins
      let policyConditions ← mapOk (policyConditionFromDict host) policyConditions
      let certainty ← certaintyFromDict (field fs "certainty")
      let metadata ← requireMapping "tree.metadata" (Dict.get? fs "metadata")
      (EvidenceTree.make treeId status rules joins policyConditions certainty metadata).map .tree
  | .leaf (.str "timeline") => do
      let events ← requireList "timeline.events" (fieldOrEmpty fs "events")
      let timelineId ← requireStr "timeline.timeline_id" (field fs "timeline_id")
      let status ← requireTreeStatus "timeline.status" (field fs "status")
      let events ← mapOk (atomFromDict host) events
      let certainty ← certaintyFromDict (field fs "certainty")
      let metadata ← requireMapping "timeline.metadata" (Dict.get? fs "metadata")
      .ok (.timeline ⟨timelineId, status, events.map .atom, certainty, metadata⟩)
  | _ => .error (.valueError "path.kind must be 'tree' or 'timeline'")

/-- `evidence_graph_from_dict`. -/
def evidenceGraphFromDict (row : Row V) : Except CodecErr (EvidenceGraph K V) := do
  let fs ← requireRow "row must be Mapping[str, Any]" row
  let paths ← requireList "row.paths" (field fs "paths")
  let graphId ← requireStr "row.graph_id" (field fs "graph_id")
  let engine ← requireStr "row.engine" (field fs "engine")
  let layoutHint ← requireLayoutHint (field fs "layout_hint")
  let subjectBinding ← requireMapping "row.subject_binding" (Dict.get? fs "subject_binding")
  let paths ← mapOk (pathFromDict host) paths
  let certainty ← certaintyFromDict (field fs "certainty")
  let metadata ← requireMapping "row.metadata" (Dict.get? fs "metadata")
  .ok ⟨graphId, engine, layoutHint, subjectBinding, paths, certainty, metadata⟩

end Reading

end FactGraph.Explain
