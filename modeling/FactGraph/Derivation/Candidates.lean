import FactGraph.Protocol.Terms

/-!
# Candidates

`core/derivation/candidates.py`: what a derivation proposes. A payload is a Python `dict` of the
caller; lists and tuples are told apart, since the code does.
-/

namespace FactGraph.Derivation

open Protocol

/-- A Python object in a payload. The keys of a `dict` are strings. -/
inductive PyVal where
  | leaf (s : Scalar)
  | list (xs : List PyVal)
  | tuple (xs : List PyVal)
  | dict (fs : List (String × PyVal))

/-- `CandidateKind`: what `candidate_kind` may be. -/
inductive CandidateKind where
  | fact
  | entity
  deriving DecidableEq, Repr

/-- The text of a kind. -/
def CandidateKind.text : CandidateKind → String
  | .fact => "fact"
  | .entity => "entity"

/-- The fields of a `DerivationOutput` that its identity and its acceptance read. -/
structure DerivationOutput where
  derivationId : String
  derivationVersion : String
  runId : String
  target : String
  payload : List (String × PyVal)
  candidateId : String
  candidateKey : String
  candidateKind : CandidateKind

/-- `mapping.get(key)` on a `dict`. -/
def getKey (fs : List (String × PyVal)) (key : String) : Option PyVal := Dict.get? fs key

/-- The text of an object that is a string. -/
def PyVal.str? : PyVal → Option String
  | .leaf (.str s) => some s
  | _ => none

/-- The reference a term makes to a candidate. -/
def candidateRef? : PyVal → Option String
  | .dict term =>
      if (getKey term "kind").bind PyVal.str? = some "candidate_ref" then
        ((getKey term "candidate_key").bind PyVal.str?).filter (· ≠ "")
      else none
  | _ => none

/-- `extract_candidate_refs`. -/
def extractCandidateRefs (candidateSet : DerivationOutput) : List String :=
  match getKey candidateSet.payload "terms" with
  | some (.list terms) => (terms.filterMap candidateRef?).dedup
  | _ => []

end FactGraph.Derivation
