import FactGraph.Rules.Scoping.Order

/-!
# What the validator establishes

A body that passes the two passes of `validate_where_ast` is *scoped*: wherever the planner puts
an atom, its operands are bound there, and so in the bodies of its `not` atoms (`Scoped`). The
validator checks the order of the source; the planner keeps what it found.

The aggregates among the operands are a different matter: the filter of an aggregate is analysed only
when its target has a variable, and in the scope the source order gives. So `Scoped` takes the value of
an aggregate as given and does not look into its filter.
-/

namespace FactGraph.Rules

open Check Schedule

/-! ## Scoped bodies -/

mutual

/-- Every operand of a body is bound where its plan reads it. -/
inductive Scoped : Scope → List Atom → Prop
  | of_plan {V : Scope} {body : List Atom} :
      (∀ p, planBodyAtoms true id V body = .ok p → ScopedSeq V p) → Scoped V body

/-- The same of atoms that run in the order given. -/
inductive ScopedSeq : Scope → List Atom → Prop
  | nil {V : Scope} : ScopedSeq V []
  | cons {V : Scope} {a : Atom} {as : List Atom} : OperandsBound V a →
      (∀ b, a = .not b → ∀ branch ∈ b.branches, Scoped V branch) →
      ScopedSeq (updateBoundVarsForPlan V a) as → ScopedSeq V (a :: as)

end

end FactGraph.Rules
