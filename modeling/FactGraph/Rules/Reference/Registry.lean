import Mathlib.Data.Rat.Encodable
import Mathlib.Logic.Equiv.List
import FactGraph.Rules.Eval

/-!
# Rules and their registry

`RuleSpec` and `RuleRegistry` of `core/rules/rule_ir.py`, and what `ruleref_common.py` shares between
the two evaluators of rule references: the name a referenced rule's rows go by inside a view, and
the checks a reference passes before the rule is evaluated.

A `RuleSpec` checks itself when it is built, and a registry takes a key once; both are fields here.
What the code asks of Python's strings and sets is `PyOps`: letters and digits are those of Unicode,
`str` of a float is its shortest decimal, and a set is iterated in no particular order.
-/

namespace FactGraph.Rules

open Check

/-! ## Python's strings and sets -/

structure PyOps where
  /-- `ch.isalnum()`. -/
  isAlnum : Char → Bool
  /-- `ch.lower()`. -/
  lower : Char → String
  /-- `str(cell)`. -/
  text : Value → String
  /-- The order in which a set of rows is iterated, given the order of their insertion. -/
  setOrder : List Fact → List Fact

/-- Python on ASCII names and on rows of strings; sets are iterated in the order of insertion. -/
def PyOps.ascii : PyOps where
  isAlnum := Char.isAlphanum
  lower ch := String.singleton ch.toLower
  text
    | .str s => s
    | .none => "None"
    | .bool b => if b then "True" else "False"
    | .int i => s!"i{i.repr}"
    | .float q => s!"f{(Encodable.encode q).repr}"
    | .bytes b => s!"b{(Encodable.encode (b.map UInt8.toNat)).repr}"
  setOrder := id

/-! ## Rules -/

/-- `(rule_id, version)`. -/
abbrev RuleKey := String × String

/-- `not where`. -/
def WhereExpr.isEmpty : WhereExpr → Bool
  | .and atoms => atoms.isEmpty
  | .or branches => branches.isEmpty

structure RuleSpec where
  ruleId : String
  version : String
  selectVars : List String
  clause : WhereExpr
  expose : Bool
  ruleId_ne : ruleId ≠ ""
  version_ne : version ≠ ""
  selectVars_ne : selectVars ≠ []
  selectVars_var : ∀ x ∈ selectVars, "$".toList.isPrefixOf x.toList = true
  clause_ne : clause.isEmpty = false

def RuleSpec.key (spec : RuleSpec) : RuleKey := (spec.ruleId, spec.version)

/-! ## The registry -/

structure RuleRegistry where
  rules : List (RuleKey × RuleSpec)
  key_eq : ∀ k spec, Dict.get? rules k = some spec → spec.key = k

/-- `RuleRegistry.resolve`. -/
def RuleRegistry.resolve (registry : RuleRegistry) (ruleId version : String) :
    Except Err RuleSpec :=
  match Dict.get? registry.rules (ruleId, version) with
  | some spec => .ok spec
  | none => .error (.ruleCompile s!"unknown RuleRef: {ruleId}@{version}")

/-- The keys of the rules. -/
def RuleRegistry.keys (registry : RuleRegistry) : Finset RuleKey :=
  (Dict.keys registry.rules).toFinset

/-! ## References -/

/-- `_sanitize`. -/
def sanitize (py : PyOps) (text : String) : String :=
  String.join (text.toList.map fun ch => if py.isAlnum ch then py.lower ch else "_")

/-- `internal_rule_pred_id`. -/
def internalRulePredId (py : PyOps) (ruleId version : String) : String :=
  s!"__rule_ref__{sanitize py ruleId}__{sanitize py version}"

/-- `str(exc)`. -/
def Err.text : Err → String
  | .whereValidation msg | .astValidation msg | .ruleCompile msg | .typeError msg
  | .valueError msg | .keyError msg | .overflowError msg | .recursionError msg => msg

/-- `resolve_exposed_rule_ref`. -/
def resolveExposedRuleRef (registry : RuleRegistry) (ruleId : String) (version : Option String)
    (termsLen : Nat) (errorFactory : String → Err) : Except Err RuleSpec := do
  require (ruleId ≠ "") (errorFactory "ruleref rule_id must be non-empty string")
  let version := version.getD ""
  require (version ≠ "") (errorFactory "ruleref version must be non-empty string")
  require (termsLen ≠ 0) (errorFactory "ruleref terms must be non-empty list")
  let refSpec ← (registry.resolve ruleId version).mapError fun exc => errorFactory exc.text
  require refSpec.expose
    (errorFactory s!"RuleRef target must be expose=True: {ruleId}@{version}")
  require (termsLen == refSpec.selectVars.length)
    (errorFactory (s!"RuleRef arity mismatch for {ruleId}@{version}: " ++
      s!"expected {refSpec.selectVars.length}, got {termsLen}"))
  .ok refSpec

/-! ## Clauses with references -/

mutual

/-- `_contains_ruleref_atom`: anywhere in the clause, however deep. -/
def containsRulerefTerm : Term → Bool
  | .var _ | .const _ => false
  | .agg _ target filter => containsRulerefTarget target || containsRulerefAtoms filter

def containsRulerefTarget : Option Term → Bool
  | none => false
  | some t => containsRulerefTerm t

def containsRulerefTerms : List Term → Bool
  | [] => false
  | t :: ts => containsRulerefTerm t || containsRulerefTerms ts

def containsRulerefAtom : Atom → Bool
  | .ruleref .. => true
  | .pred _ terms => containsRulerefTerms terms
  | .cmp _ lhs rhs => containsRulerefTerm lhs || containsRulerefTerm rhs
  | .inn .. => false
  | .builtin _ args => containsRulerefTerms args
  | .not body => containsRulerefWhere body

def containsRulerefAtoms : List Atom → Bool
  | [] => false
  | a :: as => containsRulerefAtom a || containsRulerefAtoms as

def containsRulerefBranches : List (List Atom) → Bool
  | [] => false
  | b :: bs => containsRulerefAtoms b || containsRulerefBranches bs

def containsRulerefWhere : WhereExpr → Bool
  | .and atoms => containsRulerefAtoms atoms
  | .or branches => containsRulerefBranches branches

end

end FactGraph.Rules
