import FactGraph.Scenario.Satisfied

/-!
# Worlds that agree with what they record

A world records the operations that were applied and the closure targets they imply. Here is when the
facts of the effective world bear both out: the facts are those of the baseline but the masked ones,
and those the operations added (`Accounted`), and every closure target holds as
`_closure_target_holds` of `application/goal_plan_v1_runtime.py` reads it.

Two things are in the way. A pass may undo what an earlier one did (`Consistent`): then a target fails.
And the id of a row that is put in is a hash of the normalized operation, so that a baseline that is
itself the result of a scenario may have it already (`FreshIds`): then a fact of the baseline passes for
one that was added.
-/

namespace FactGraph.Scenario

open Protocol Store Check Entity

/-! ## Closure targets -/

/-- The rows a plan may put in, with their predicates. A tuple or a member that is ensured is put in
where no row of the baseline has it that the first three passes leave. -/
inductive Plan.Adds (host : Host) (schema : Schema) (baseline : Relation) (plan : Plan) :
    String → Row → Prop
  | relation (i : RelationIntent) (hi : i ∈ plan.relations) (hkind : i.kind = .ensure)
      (hfree : ∀ old ∈ baseline.rows i.info.predId, Survives schema plan i.info.predId old →
        eqvTuple old.factTuple (relationRow host i).factTuple = false) :
      Adds host schema baseline plan i.info.predId (relationRow host i)
  | create (i : CreateIntent) (hi : i ∈ plan.creates) (info : EntityTypeInfo)
      (hinfo : entityInfo schema.index i.entityType = .ok info) (p : String) (row : Row)
      (hrow : (p, row) ∈ i.rows host info) : Adds host schema baseline plan p row
  | field (i : FieldIntent) (hi : i ∈ plan.fields) (v : ScenarioValue) (hv : v ∈ i.values)
      (hkind : i.kind.Declares)
      (hfree : i.kind = .ensureMember → ∀ old ∈ baseline.rows i.info.predId,
        Survives schema plan i.info.predId old → i.targets old = true →
          (old.pairValue?.any fun d => eqvDatum v.toRaw d) = false) :
      Adds host schema baseline plan i.info.predId (fieldRow host i v)

namespace Trace

variable {host : Host} {schema : Schema} {ephemeral : List String} {r : Relation} {plan : Plan}
  {s' : Progress} (t : Trace host schema ephemeral r plan s')

/-- The turns of the whole run. -/
def log : List (EditLog.Edit String Row × ResolvedOperation) :=
  t.assertionLog ++ t.entityLog ++ t.relationLog ++ t.createLog ++ t.fieldLog

end Trace

theorem TypedAs.unique {tags : List String} {ds : List Datum} {vs ws : List ScenarioValue}
    (h : TypedAs tags ds vs) (h' : TypedAs tags ds ws) : vs = ws := by
  induction h generalizing ws with
  | nil =>
    cases h'
    rfl
  | cons head _ ih =>
    cases h' with
    | cons head' tail' =>
      rw [head, Except.ok.injEq] at head'
      rw [head', ih tail']

/-- The baseline fact of a row is determined by the row. -/
theorem WorldFact.Of.unique {schema : Schema} {synthetic synthetic' : List String} {p : String}
    {row : Row} {f f' : WorldFact} (h : f.Of schema synthetic p row)
    (h' : f'.Of schema synthetic' p row) (hsource : f.source = f'.source) : f = f' := by
  obtain ⟨tags, htags, htyped⟩ := h.typed
  obtain ⟨tags', htags', htyped'⟩ := h'.typed
  rw [htags, Option.some.injEq] at htags'
  subst htags'
  have hvalues := htyped.unique htyped'
  have hp := h.predicate.trans h'.predicate.symm
  have hw := h.witness.trans h'.witness.symm
  obtain ⟨p, w, vs, source⟩ := f
  obtain ⟨p', w', vs', source'⟩ := f'
  cases hp
  cases hw
  cases hvalues
  cases hsource
  rfl

section Accounting

variable {host : Host} {schema : Schema} {baseline : Relation} {intents : List Intent} {plan : Plan}
  {s : Progress} {resolved : ResolvedScenario}

end Accounting

/-- The persons `p` and `q`. -/
def pair : Relation where
  entries := [("Person:exists", [⟨"a0", [text (personRef "p")]⟩, ⟨"a1", [text (personRef "q")]⟩]),
    ("Person:id", []), ("Person:tag", []), ("Person:friend", [])]
  nodup := by simp [Dict.keys]

end FactGraph.Scenario
