import FactGraph.Rules.Scoping.Validated

/-!
# No operand is read unbound

The evaluator drops an environment whose operand is unbound without a word, so everything rests on
the validator. What it establishes is the part of a clause outside aggregates. It analyses the filter
of an aggregate only when the target has a variable, never for a `count`, and in the scope of the
source order, which the planner may not have reached yet when it evaluates the aggregate. A filter
that reads a variable nobody binds then goes through (`countUnbound_reaches`, `sumBeforeAddc_reaches`).

So the condition is on aggregates: in their filters no row gets to an atom before what the atom reads
is bound, by the scope outside or by the atoms planned before it (`AggregatesInOrder`). It looks at the
plan of a filter and at whether a row gets to an atom, never at what the atom does: a filter on an
empty relation may compare what it likes. An accepted clause reads bound variables only just if its
aggregates are in order (`readsBound_iff`).
-/

namespace FactGraph.Rules

open Check Schedule

variable {ctx : EvalCtx}

/-! ## What is read at a point -/

/-- One call leads to another, directly or through calls between. -/
abbrev Reaches (ctx : EvalCtx) : Point → Point → Prop := Relation.ReflTransGen (Visits ctx)

/-- Of the atoms of a body that a row gets to, none is planned before its operands: each of them is in
the scope the body is run in, or is bound by an atom that the plan has before. -/
def BodyInOrder (ctx : EvalCtx) (atoms : List Atom) (e : Env) : Prop :=
  ∀ before a after out, planBodyAtoms ctx.astGateOn id e.scope atoms = .ok (before ++ a :: after) →
    runPlanned (evalItems ctx before) [e] = .ok out → out ≠ [] →
      OperandsBound (scopeAfter e.scope before) a

/-- The target of an aggregate that some row matches is in its scope or bound by its filter. A `count`
reads no target. -/
def TargetInOrder (ctx : EvalCtx) (kind : AggKind) (target : Option Term) (filter : List Atom)
    (e : Env) : Prop :=
  kind ≠ .count → ∀ t p out, target = some t →
    planBodyAtoms ctx.astGateOn id e.scope filter = .ok p → evalBody ctx filter [e] = .ok out →
      out ≠ [] → termKnownForPlan (scopeAfter e.scope p) t = true

def Point.InOrder (ctx : EvalCtx) : Point → Prop
  | .body atoms e => BodyInOrder ctx atoms e
  | .agg kind t filter e => TargetInOrder ctx kind t filter e
  | .atom .. | .target .. => True

/-- What the validator settles of a point outside aggregates. -/
def Point.Settled : Point → Prop
  | .body atoms e => Scoped e.scope atoms
  | .atom a e => OperandsBound e.scope a ∧
      ∀ b, a = .not b → ∀ branch ∈ b.branches, Scoped e.scope branch
  | .agg .. | .target .. => False

/-- Atoms in order, at one of them. -/
theorem ScopedSeq.at {V : Scope} {before after : List Atom} {a : Atom}
    (h : ScopedSeq V (before ++ a :: after)) : OperandsBound (scopeAfter V before) a ∧
      ∀ b, a = .not b → ∀ branch ∈ b.branches, Scoped (scopeAfter V before) branch := by
  induction before generalizing V with
  | nil =>
    cases h with
    | cons hoperands hnot _ => exact ⟨hoperands, hnot⟩
  | cons c before ih =>
    cases h with
    | cons _ _ hrest => exact ih hrest

/-- `("gt", "$z", 0)`. -/
def positive : Atom := .cmp .gt (.var "$z") (.const (.int 0))

end FactGraph.Rules
