import FactGraph.Lib.FreshNames
import FactGraph.Rules.Eval
import FactGraph.Scenario.Resolve

/-!
# Compiled policies

What a query is compiled against. `application/protocol/rule.py` has the rules: a body, the atoms of
`where_ast.py`, and ports, which name variables of the body. An occurrence of a rule has an alias,
`rule_expr.py` and `rule_expr_lowering.py` combine occurrences and lower them to branches, and
`policy_runtime.py` adds the conditions of the policy. `semantic_port.py` and `semantic_address.py`
say of every port which part of the schema it is; an address is a port of one of the occurrences of
an address space.
-/

namespace FactGraph.Policy

open Rules Check

/-! ## Rules -/

/-- `PortType`. -/
inductive PortType where
  | entityRef (entityType : String)
  | value
  deriving DecidableEq, Repr

/-- `Rule`. The ports are in their order; origins and the template of `repr` are left out. -/
structure Rule where
  id : String
  version : Option String
  body : List Atom
  ports : List (String × String)
  /-- `ports[key] Var must appear in where`. -/
  port_mem : ∀ p ∈ ports, p.2 ∈ varsInAtomList body

/-- `_find_entity_ref_type_in_atom`, on a predicate id: the type an `exists` predicate is of. -/
def existsType? (predId : String) : Option String :=
  let cs := predId.toList
  if ":exists".toList.isSuffixOf cs && cs.length > ":exists".toList.length then
    some (String.ofList (cs.take (cs.length - ":exists".toList.length)))
  else none

/-- Whether a term is the variable. -/
def isVar (x : String) : Term → Bool
  | .var y => x = y
  | .const _ | .agg .. => false

mutual

/-- `_find_entity_ref_type_in_atom`. -/
def entityRefTypeInAtom (x : String) : Atom → Option String
  | .pred predId terms => if terms.any (isVar x) then existsType? predId else none
  | .not body => entityRefTypeInWhere x body
  | .ruleref .. | .cmp .. | .inn .. | .builtin .. => none

/-- `_find_entity_ref_type`. -/
def entityRefType (x : String) : List Atom → Option String
  | [] => none
  | a :: as => (entityRefTypeInAtom x a).orElse fun _ => entityRefType x as

def entityRefTypeInBranches (x : String) : List (List Atom) → Option String
  | [] => none
  | b :: bs => (entityRefType x b).orElse fun _ => entityRefTypeInBranches x bs

/-- `_find_entity_ref_type_in_expr`. -/
def entityRefTypeInWhere (x : String) : WhereExpr → Option String
  | .and atoms => entityRefType x atoms
  | .or branches => entityRefTypeInBranches x branches

end

/-- `_infer_port_types`, of one variable. -/
def Rule.portType (r : Rule) (x : String) : PortType :=
  match entityRefType x r.body with
  | some entityType => .entityRef entityType
  | none => .value

/-- `RulePortRef`. -/
structure RulePortRef where
  occurrenceAlias : String
  ruleId : String
  portName : String
  varName : String
  portType : PortType
  deriving DecidableEq, Repr

/-- `_OCCURRENCE_ALIAS_RE`: a letter, then letters, digits and underscores. -/
def isOccurrenceAlias (s : String) : Bool :=
  match s.toList with
  | [] => false
  | c :: cs => c.isAlpha && cs.all fun d => d.isAlphanum || d = '_'

/-- `RuleOccurrence`. -/
structure RuleOccurrence where
  rule : Rule
  aliasName : String
  /-- `_validate_occurrence_alias`. -/
  alias_ok : isOccurrenceAlias aliasName = true

/-- `RuleOccurrence.port`. -/
def RuleOccurrence.port? (o : RuleOccurrence) (name : String) : Option RulePortRef :=
  (Dict.get? o.rule.ports name).map fun x => ⟨o.aliasName, o.rule.id, name, x, o.rule.portType x⟩

/-! ## Expressions -/

/-- `RuleJoinConstraint`. -/
structure RuleJoinConstraint where
  left : RulePortRef
  right : RulePortRef
  deriving DecidableEq, Repr

/-- `_RuleOperand`. -/
structure RuleOperand where
  rule : Rule
  aliasName : String
  explicitAlias : Bool
  authoredAlias : Option String := none

/-- `_RuleExpr`: `_RuleOperand | _AndGroup | _OrGroup`. -/
inductive RuleExpr where
  | operand (o : RuleOperand)
  | and (children : List RuleExpr) (joins : List RuleJoinConstraint)
  | or (children : List RuleExpr)

/-- What the compiler calls of the standard library: `repr`, of canonical forms, atoms and text, and
`sha256_hex`, of the content of a rule and of text. -/
structure Host where
  exprKey : RuleExpr → String
  endpointKey : RulePortRef → String
  joinKey : RulePortRef × RulePortRef → String
  atomKey : Rules.Atom → String
  reprText : String → String
  contentDigest : Rule → String
  sha256Hex : String → String

/-- `sorted(..., key=...)`. -/
def sortBy {α β : Type} [LinearOrder β] (key : α → β) (as : List α) : List α :=
  as.insertionSort fun a b => key a ≤ key b

theorem sortBy_perm {α β : Type} [LinearOrder β] (key : α → β) (as : List α) :
    (sortBy key as).Perm as := List.perm_insertionSort _ as

/-! ## Bindings of occurrences -/

/-- `RuleExprPortBinding`. -/
structure PortBinding where
  occurrenceAlias : String
  portName : String
  portType : PortType
  sourceVar : String
  executionVar : String
  deriving DecidableEq, Repr

/-- `RuleExprOccurrenceBinding`. -/
structure OccurrenceBinding where
  aliasName : String
  ruleId : String
  contentDigest : String
  portBindings : List PortBinding
  ruleVersion : Option String
  authoredAlias : Option String
  deriving DecidableEq, Repr

/-! ## Branches -/

/-- `RuleExprLoweringBranch`. -/
structure LoweringBranch where
  branchId : String
  occurrenceAliases : List String
  bodyAtoms : List Rules.Atom
  pendingJoins : List RuleJoinConstraint

/-- `_RuleExprBodyPlan`. -/
structure BodyPlan where
  branches : List LoweringBranch
  occurrenceMap : List OccurrenceBinding

/-! ## Lookups -/

/-- `_occurrence_binding`. -/
def occurrenceBinding (m : List OccurrenceBinding) (aliasName : String) :
    Option OccurrenceBinding :=
  m.find? fun b => b.aliasName = aliasName

/-- `_port_binding`. -/
def portBinding (b : OccurrenceBinding) (portName : String) : Option PortBinding :=
  b.portBindings.find? fun p => p.portName = portName

/-! ## Contracts -/

/-- `SemanticEndpoint`. -/
inductive SemanticEndpoint where
  | entityIdentity (entityType : String)
  | field (entityType fieldName : String)
  | functionValue (functionDigest relationPredicateId portName : String) (output : Bool)
      (scalarDomain : String) (position : Nat)
  deriving DecidableEq, Repr

/-- `SemanticRulePort`. -/
structure SemanticRulePort where
  varName : String
  endpoint : SemanticEndpoint
  deriving DecidableEq, Repr

/-- `ResolvedRuleContract`. -/
structure ResolvedRuleContract where
  ruleId : String
  ruleVersion : Option String
  ruleContentDigest : String
  schemaDigest : String
  ports : List (String × SemanticRulePort)
  semanticContractDigest : String

/-- `assert_rule_contract_current`. The ports are compared as dictionaries. -/
def contractCurrent (host : Host) (r : Rule) (c : ResolvedRuleContract) : Bool :=
  decide (r.id = c.ruleId) && decide (r.version = c.ruleVersion) &&
    decide (host.contentDigest r = c.ruleContentDigest) &&
    ((Dict.keys r.ports).all fun name =>
      decide (Dict.get? r.ports name = (Dict.get? c.ports name).map (·.varName))) &&
    (Dict.keys c.ports).all (Dict.has r.ports)

/-! ## Address spaces -/

/-- `SemanticPortAddress`. -/
structure SemanticPortAddress where
  occurrenceAlias : String
  portName : String
  deriving DecidableEq, Repr

/-- `ManagedRuleOccurrence`. -/
structure ManagedRuleOccurrence where
  occurrence : RuleOccurrence
  contract : ResolvedRuleContract

def ManagedRuleOccurrence.aliasName (m : ManagedRuleOccurrence) : String := m.occurrence.aliasName

def ManagedRuleOccurrence.rule (m : ManagedRuleOccurrence) : Rule := m.occurrence.rule

/-- `SemanticAddressSpace`: its occurrences by alias. -/
structure SemanticAddressSpace where
  occurrences : List ManagedRuleOccurrence
  digest : String
  /-- `duplicate occurrence alias`. -/
  nodup : (occurrences.map ManagedRuleOccurrence.aliasName).Nodup

/-- `self._by_alias.get(alias)`. -/
def SemanticAddressSpace.byAlias (s : SemanticAddressSpace) (aliasName : String) :
    Option ManagedRuleOccurrence :=
  s.occurrences.find? fun m => m.aliasName = aliasName

/-- `_ResolvedSemanticPortRef`: what the address names. -/
structure ResolvedSemanticPortRef where
  executionRef : RulePortRef
  endpoint : SemanticEndpoint

/-- `SemanticAddressResolutionError`: its message and its code. -/
structure AddressError where
  message : String
  code : String

/-- `SemanticAddressSpace.resolve`. -/
def SemanticAddressSpace.resolve (s : SemanticAddressSpace) (host : Host)
    (a : SemanticPortAddress) : Except AddressError ResolvedSemanticPortRef :=
  match s.byAlias a.occurrenceAlias with
  | none => .error ⟨s!"unknown occurrence alias {host.reprText a.occurrenceAlias}",
      "UNKNOWN_OCCURRENCE_ALIAS"⟩
  | some m =>
      if !contractCurrent host m.rule m.contract then
        .error ⟨"occurrence Rule does not match its semantic contract",
          "OCCURRENCE_CONTRACT_MISMATCH"⟩
      else
        match m.occurrence.port? a.portName, Dict.get? m.contract.ports a.portName with
        | none, none => .error ⟨s!"unknown semantic port {host.reprText a.portName}",
            "UNKNOWN_SEMANTIC_PORT"⟩
        | none, some _ | some _, none =>
            .error ⟨"Rule and semantic contract port sets no longer agree",
              "OCCURRENCE_CONTRACT_MISMATCH"⟩
        | some r, some port =>
            if port.varName = r.varName then .ok ⟨r, port.endpoint⟩
            else .error ⟨"Rule and semantic contract Vars no longer agree",
              "OCCURRENCE_CONTRACT_MISMATCH"⟩

/-! ## Conditions -/

/-- `PolicyConditionRole`. -/
inductive ConditionRole where
  | leftField | rightField | compare
  deriving DecidableEq, Repr

def ConditionRole.order : ConditionRole → Nat
  | .leftField => 0
  | .rightField => 1
  | .compare => 2

/-- `condition_id`. -/
def ConditionRole.conditionId : ConditionRole → String
  | .leftField => "left_field"
  | .rightField => "right_field"
  | .compare => "compare"

/-- `RuleExprPolicyCondition`. The id of a condition says its role. -/
structure PolicyCondition where
  branchId : String
  policyNodeId : String
  role : ConditionRole
  atom : Rules.Atom

/-- `_policy_condition_sort_key`, of `policy_runtime.py`. -/
def PolicyCondition.sortKey (c : PolicyCondition) : String ×ₗ String ×ₗ Nat :=
  toLex (c.branchId, toLex (c.policyNodeId, c.role.order))

/-! ## What the compiler makes -/

/-- `PolicyCompiledBranch`. -/
structure PolicyCompiledBranch where
  branchId : String
  authoredAliases : List String
  loweredAliases : List String

/-- `CompiledPolicyV0`: what a query reads of it. -/
structure CompiledPolicy where
  branches : List PolicyCompiledBranch
  bodyPlan : BodyPlan
  conditions : List PolicyCondition

end FactGraph.Policy
