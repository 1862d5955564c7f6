import FactGraph.Pyreason.Runner

/-!
# Annotations after acceptance

`persist_pyreason_annotations` of `adapters/pyreason/accept.py`. An evaluation leaves the templates of
the session it derived, under the id of the run; when candidates of the run have been accepted, the
templates are taken out and turned into annotations.

A template names its fact by kind and by place among the facts of that kind. What acceptance answers
is one list, and the binder takes the place in that list, whatever the kind. So a template reaches the
assertion of its own fact just where the two ways of counting agree
(`annotations_reach_iff`); `accept_pyreason_session` keeps the kind in its key and needs no such
agreement.

Acceptance may answer one assertion many times: a candidate that is a duplicate lists the assertion
that is there already. What an assertion does not do is stand for two facts.
-/

namespace FactGraph.Pyreason

open Check

/-! ## Keys of facts -/

/-- A fact of a session: its kind, and its place among the facts of that kind. -/
structure FactKey where
  kind : FactKind
  index : Nat
  deriving DecidableEq, Repr

def Template.key (t : Template) : FactKey := ⟨t.factKind, t.factIndex⟩

/-- How many facts of a kind the session has. -/
def Session.count (s : Session) : FactKind → Nat
  | .node => s.nodeFacts.length
  | .edge => s.edgeFacts.length

/-- The key is that of a fact. -/
def Session.HasFact (s : Session) (k : FactKey) : Prop := k.index < s.count k.kind

/-- Is the template one of PyReason's own? -/
def Template.isPyreason (t : Template) : Bool := t.annotation.space = "pyreason"

/-- Templates and facts belong together: every template is about a fact, every fact has a template of
PyReason's own, and no template claims to be derived. -/
structure Session.Templated (s : Session) : Prop where
  about : ∀ t ∈ s.annotationTemplates, s.HasFact t.key
  covered : ∀ k, s.HasFact k → ∃ t ∈ s.annotationTemplates, t.key = k ∧ t.isPyreason = true
  observed : ∀ t ∈ s.annotationTemplates,
    t.annotation.origin = "observed" ∧ t.annotation.derivation = none

theorem annotationsOf_observed {bound : Bound} {activeFrom : Nat} {activeTo : Option Nat}
    {metadata : Meta} {a : Annotation} (h : a ∈ annotationsOf bound activeFrom activeTo metadata) :
    a.origin = "observed" ∧ a.derivation = none := by
  unfold annotationsOf at h
  rcases List.mem_append.mp h with h | h
  · rcases List.mem_append.mp h with h | h
    · rcases List.mem_append.mp h with h | h
      · rcases List.mem_cons.mp h with rfl | h
        · exact ⟨rfl, rfl⟩
        · cases List.mem_singleton.mp h
          exact ⟨rfl, rfl⟩
      · split at h
        · cases List.mem_singleton.mp h
          exact ⟨rfl, rfl⟩
        · cases h
    · split at h
      · cases List.mem_singleton.mp h
        exact ⟨rfl, rfl⟩
      · cases h
  · obtain ⟨key, -, h⟩ := List.mem_filterMap.mp h
    split at h
    · cases h
    · cases h
    · cases h
      exact ⟨rfl, rfl⟩

theorem mem_generate {n : Nat} {kind : FactKind} {bound : Bound} {activeFrom : Nat}
    {activeTo : Option Nat} {metadata : Meta} {t : Template}
    (h : t ∈ generateAnnotationTemplates n kind bound activeFrom activeTo metadata) :
    t.key = ⟨kind, n⟩ ∧ t.annotation.origin = "observed" ∧ t.annotation.derivation = none := by
  obtain ⟨a, ha, rfl⟩ := List.mem_map.mp h
  exact ⟨rfl, annotationsOf_observed ha⟩

theorem bound_lower_mem_generate (n : Nat) (kind : FactKind) (bound : Bound) (activeFrom : Nat)
    (activeTo : Option Nat) (metadata : Meta) :
    (⟨kind, n, semantic "bound_lower" "float" (.bound bound.lo)⟩ : Template) ∈
      generateAnnotationTemplates n kind bound activeFrom activeTo metadata :=
  List.mem_map_of_mem (List.mem_cons_self)

/-- One more fact, with its templates. -/
theorem Session.Templated.grow {s s' : Session} (hs : s.Templated) {kind : FactKind} {bound : Bound}
    {activeFrom : Nat} {activeTo : Option Nat} {metadata : Meta}
    (hcount : ∀ k, s'.count k = if k = kind then s.count k + 1 else s.count k)
    (htemplates : s'.annotationTemplates = s.annotationTemplates ++
      generateAnnotationTemplates (s.count kind) kind bound activeFrom activeTo metadata) :
    s'.Templated := by
  have hgrows : ∀ k, s.HasFact k → s'.HasFact k := by
    intro k hk
    unfold Session.HasFact at hk ⊢
    rw [hcount]
    split <;> omega
  have hnew : s'.HasFact ⟨kind, s.count kind⟩ := by
    unfold Session.HasFact
    rw [hcount, if_pos rfl]
    exact Nat.lt_succ_self _
  refine ⟨?_, ?_, ?_⟩
  · intro t ht
    rw [htemplates, List.mem_append] at ht
    rcases ht with ht | ht
    · exact hgrows _ (hs.about t ht)
    · rw [(mem_generate ht).1]
      exact hnew
  · intro k hk
    by_cases hold : s.HasFact k
    · obtain ⟨t, ht, hkey, hown⟩ := hs.covered k hold
      exact ⟨t, by rw [htemplates]; exact List.mem_append_left _ ht, hkey, hown⟩
    · -- the key is the new one
      have heq : k = ⟨kind, s.count kind⟩ := by
        unfold Session.HasFact at hk hold
        rw [hcount] at hk
        obtain ⟨k, i⟩ := k
        dsimp only at hk hold
        split at hk
        · rename_i hkind
          subst hkind
          congr 1
          omega
        · exact absurd hk hold
      subst heq
      refine ⟨⟨kind, s.count kind, semantic "bound_lower" "float" (.bound bound.lo)⟩, ?_, rfl, rfl⟩
      rw [htemplates]
      exact List.mem_append_right _ (bound_lower_mem_generate _ _ bound activeFrom activeTo metadata)
  · intro t ht
    rw [htemplates, List.mem_append] at ht
    rcases ht with ht | ht
    · exact hs.observed t ht
    · exact (mem_generate ht).2

theorem Session.Templated.writeNodeFact {host : Host} {s s' : Session}
    {predId nodeRef value : String} {opts : WriteOptions} (hs : s.Templated)
    (h : s.writeNodeFact host predId nodeRef value opts = .ok s') : s'.Templated := by
  obtain ⟨-, fact, -, -, -, -, -, rfl⟩ := writeNodeFact_ok h
  refine @Session.Templated.grow _ _ hs .node _ _ _ _ ?_ rfl
  rintro (_ | _)
  · simp [Session.count]
  · rfl

theorem Session.Templated.writeEdgeFact {host : Host} {s s' : Session}
    {predId fromRef toRef value : String} {opts : WriteOptions} (hs : s.Templated)
    (h : s.writeEdgeFact host predId fromRef toRef value opts = .ok s') : s'.Templated := by
  obtain ⟨-, fact, -, -, -, -, -, -, rfl⟩ := writeEdgeFact_ok h
  refine @Session.Templated.grow _ _ hs .edge _ _ _ _ ?_ rfl
  rintro (_ | _)
  · rfl
  · simp [Session.count]

theorem extractOne_templated {host : Host} {st st' : Extraction} {timestep : Nat}
    {component predName : String} {bound : Bound} (hst : st.derived.Templated)
    (h : extractOne host st timestep component predName bound = .ok st') : st'.derived.Templated := by
  unfold extractOne at h
  split at h
  · cases h
    exact hst
  · dsimp only at h
    split at h
    · cases h
      exact hst
    · split at h
      · cases h
        exact hst
      · rw [bind_ok_iff] at h
        obtain ⟨derived, hwrite, heq⟩ := h
        cases heq
        exact hst.writeEdgeFact hwrite
    · split at h
      · cases h
        exact hst
      · rw [bind_ok_iff] at h
        obtain ⟨derived, hwrite, heq⟩ := h
        cases heq
        exact hst.writeNodeFact hwrite

/-- **Whatever an engine derives, the templates of the session belong to its facts.** -/
theorem templated_of_extract {host : Host} {interpretation : List Label} {input s : Session}
    (h : extractDerivedFacts host interpretation input = .ok s) : s.Templated := by
  unfold extractDerivedFacts at h
  rw [bind_ok_iff] at h
  obtain ⟨st, hall, heq⟩ := h
  cases heq
  have hrun : ∀ (labels : List Label) (st st' : Extraction), st.derived.Templated →
      extractAll host st labels = .ok st' → st'.derived.Templated := by
    intro labels
    induction labels with
    | nil =>
      intro st st' hst h
      cases h
      exact hst
    | cons l ls ih =>
      intro st st' hst h
      rw [extractAll] at h
      split at h
      · exact ih st st' hst h
      · rw [bind_ok_iff] at h
        obtain ⟨st₁, hone, hrest⟩ := h
        exact ih st₁ st' (extractOne_templated hst hone) hrest
  refine hrun interpretation _ st ⟨?_, ?_, ?_⟩ hall
  · intro t ht
    cases ht
  · rintro ⟨kind, i⟩ hk
    cases kind <;> exact absurd hk (Nat.not_lt_zero _)
  · intro t ht
    cases ht

/-! ## The binder -/

/-- An entry of `written_assertions`: its `asrt_id`, absent where there is no text. -/
structure Entry where
  asrtId : Option String
  deriving DecidableEq

/-- The id of an entry, if it is that of an assertion. -/
def Entry.valid (e : Entry) : Option String := e.asrtId.filter fun a => a ≠ "" && a ≠ "<dry_run>"

/-- `asrt_id_by_index.get(i)`. -/
def asrtIdByIndex (written : List Entry) (i : Nat) : Option String := written[i]?.bind Entry.valid

/-- `_is_validated_pyreason_template`. -/
def isValidatedPyreasonTemplate (t : Template) : Except Err Bool :=
  if t.isPyreason then do
    require (t.annotation.origin ∈ ["observed", "derived"]) (.value
      s!"unsupported annotation origin in template: '{t.annotation.origin}'")
    require (¬ (t.annotation.origin = "derived" ∧ t.annotation.derivation.getD "" = "")) (.value
      "derived annotation template must include non-empty derivation")
    .ok true
  else .ok false

/-- One turn of the loop over the templates: the row of a template, listed with the template. -/
def bindOne (lookup : Template → Option String) (t : Template) :
    Except Err (List (Template × String)) := do
  let own ← isValidatedPyreasonTemplate t
  .ok (if own then (lookup t).toList.map fun a => (t, a) else [])

/-- The templates that wait, by run. -/
abbrev Pending := List (String × List Template)

/-- What `pyreason_engine_eval` leaves under the id of its run. -/
def rememberTemplates (pending : Pending) (runId : String) (derived : Session) : Pending :=
  Dict.set pending runId derived.annotationTemplates

/-- `persist_pyreason_annotations`: what still waits, and the rows for the ledger. -/
def persistPyreasonAnnotations (pending : Pending) (runId : String) (written : List Entry) :
    Pending × Except Err (List (Template × String)) :=
  if runId = "" then (pending, .error (.value "run_id must be non-empty string"))
  else
    let templates := (Dict.get? pending runId).getD []
    (Dict.remove pending runId,
      if written.all fun e => e.valid.isNone then .ok []
      else collect (bindOne fun t => asrtIdByIndex written t.factIndex) templates)

/-- Several acceptances of one run, each followed by the binder. -/
def persistAll (runId : String) : Pending → List (List Entry) → Except Err (List (Template × String))
  | _, [] => .ok []
  | pending, written :: calls => do
      let (pending, bound) := persistPyreasonAnnotations pending runId written
      let bound ← bound
      let rest ← persistAll runId pending calls
      .ok (bound ++ rest)

theorem bindOne_of_observed {lookup : Template → Option String} {t : Template}
    (h : t.annotation.origin = "observed") :
    bindOne lookup t = .ok (if t.isPyreason then (lookup t).toList.map fun a => (t, a) else []) := by
  have hvalid : isValidatedPyreasonTemplate t = .ok t.isPyreason := by
    unfold isValidatedPyreasonTemplate
    rw [h]
    cases t.isPyreason <;> rfl
  unfold bindOne
  rw [hvalid]
  rfl

/-- What the loop binds: each template of PyReason's own, to what is looked up for it. -/
theorem collect_bindOne {s : Session} (hs : s.Templated) (lookup : Template → Option String) :
    ∃ bound, collect (bindOne lookup) s.annotationTemplates = .ok bound ∧
      ∀ t a, (t, a) ∈ bound ↔
        t ∈ s.annotationTemplates ∧ t.isPyreason = true ∧ lookup t = some a := by
  refine ⟨_, collect_of_total fun t ht => bindOne_of_observed (hs.observed t ht).1, ?_⟩
  intro t a
  rw [List.mem_flatMap]
  constructor
  · rintro ⟨t', ht', hmem⟩
    split at hmem
    · rename_i hown
      obtain ⟨a', ha', heq⟩ := List.mem_map.mp hmem
      cases heq
      exact ⟨ht', hown, Option.mem_toList.mp ha'⟩
    · cases hmem
  · rintro ⟨ht, hown, ha⟩
    refine ⟨t, ht, ?_⟩
    rw [if_pos hown]
    exact List.mem_map_of_mem (Option.mem_toList.mpr ha)

/-! ## Acceptance -/

/-- Has the schema a predicate of this id, with so many arguments? -/
def hasOutput (schema : List SchemaPred) (minArgs : Nat) (predId : String) : Bool :=
  match schema.find? fun pred => pred.predId = predId with
  | some pred => minArgs ≤ pred.argDomains.length
  | none => false

/-- The facts for which `pyreason_engine_eval` has an output. -/
def Session.candidates (s : Session) : List FactKey :=
  ((s.nodeFacts.zipIdx.filter fun p => hasOutput s.schema 1 p.1.predId).map fun p =>
    ⟨.node, p.2⟩) ++
  ((s.edgeFacts.zipIdx.filter fun p => hasOutput s.schema 2 p.1.predId).map fun p =>
    ⟨.edge, p.2⟩)

theorem hasFact_of_mem_candidates {s : Session} {k : FactKey} (h : k ∈ s.candidates) :
    s.HasFact k := by
  unfold Session.candidates at h
  rcases List.mem_append.mp h with h | h
  · obtain ⟨⟨fact, i⟩, hmem, rfl⟩ := List.mem_map.mp h
    exact (List.mem_zipIdx' (List.mem_filter.mp hmem).1).1
  · obtain ⟨⟨fact, i⟩, hmem, rfl⟩ := List.mem_map.mp h
    exact (List.mem_zipIdx' (List.mem_filter.mp hmem).1).1

/-- One call: the candidates that are accepted, in order, with the entries that acceptance answers for
each. A candidate that fails or is passed over has none. -/
abbrev Call := List (FactKey × List Entry)

/-- The entries of a call, each with the fact it is for. -/
def Call.sources (call : Call) : List (FactKey × Entry) := call.flatMap fun p => p.2.map fun e => (p.1, e)

/-- `written_assertions`. -/
def Call.written (call : Call) : List Entry := call.flatMap Prod.snd

/-- Acceptance of candidates of a run, in one call or several. An assertion is that of one fact; a
duplicate lists it again, in the same call or in a later one. -/
structure Acceptance (s : Session) where
  calls : List Call
  ofCandidates : ∀ call ∈ calls, ∀ p ∈ call, p.1 ∈ s.candidates
  ofOneFact : ∀ p ∈ calls.flatMap Call.sources, ∀ q ∈ calls.flatMap Call.sources,
    p.2.valid.isSome → p.2.valid = q.2.valid → p.1 = q.1

variable {s : Session}

/-- The assertion is the one written for the fact. -/
def Acceptance.Wrote (acc : Acceptance s) (k : FactKey) (asrtId : String) : Prop :=
  ∃ call ∈ acc.calls, ∃ e, (k, e) ∈ call.sources ∧ e.valid = some asrtId

/-- **Every template reaches the assertion of its own fact, and no other.** -/
def Acceptance.Reaches (acc : Acceptance s) (pending : Pending) (runId : String) : Prop :=
  ∃ bound, persistAll runId (rememberTemplates pending runId s) (acc.calls.map Call.written) =
      .ok bound ∧
    ∀ t ∈ s.annotationTemplates, t.isPyreason = true →
      ∀ a, (t, a) ∈ bound ↔ acc.Wrote t.key a

/-- In the first call, where an assertion stands there is no other fact's place; and every assertion,
of this call or of a later one, stands there at the place of its own fact. -/
structure Acceptance.Aligned (acc : Acceptance s) : Prop where
  alone : ∀ call, acc.calls.head? = some call → ∀ i k e, call.sources[i]? = some (k, e) →
    e.valid.isSome = true → ∀ k', s.HasFact k' → k'.index = i → k' = k
  placed : ∀ first, acc.calls.head? = some first → ∀ k a, acc.Wrote k a →
    ∃ e, first.sources[k.index]? = some (k, e) ∧ e.valid = some a

/-! ## The first call takes all -/

theorem Call.written_eq (call : Call) : call.written = call.sources.map Prod.snd := by
  unfold Call.written Call.sources
  rw [List.map_flatMap]
  simp

/-- The id at a place of a call. -/
theorem asrtIdByIndex_eq_some_iff {call : Call} {i : Nat} {a : String} :
    asrtIdByIndex call.written i = some a ↔
      ∃ k e, call.sources[i]? = some (k, e) ∧ e.valid = some a := by
  unfold asrtIdByIndex
  rw [Call.written_eq, List.getElem?_map, Option.bind_eq_some_iff]
  constructor
  · rintro ⟨e, he, ha⟩
    obtain ⟨⟨k, e'⟩, hsource, rfl⟩ := Option.map_eq_some_iff.mp he
    exact ⟨k, e', hsource, ha⟩
  · rintro ⟨k, e, hsource, ha⟩
    exact ⟨e, Option.map_eq_some_iff.mpr ⟨(k, e), hsource, rfl⟩, ha⟩

/-- Once the templates are taken out, nothing is bound. -/
theorem persistAll_taken {runId : String} (hrun : runId ≠ "") {pending : Pending}
    (hpending : Dict.get? pending runId = none) (calls : List (List Entry)) :
    persistAll runId pending calls = .ok [] := by
  induction calls generalizing pending with
  | nil => rfl
  | cons written calls ih =>
    have hcall : persistPyreasonAnnotations pending runId written =
        (Dict.remove pending runId, .ok []) := by
      unfold persistPyreasonAnnotations
      rw [if_neg hrun, hpending]
      dsimp only
      split <;> rfl
    rw [persistAll, hcall]
    dsimp only
    rw [ok_bind, ih (Dict.get?_remove_self pending runId)]
    rfl

/-- What is bound over several calls is what the first call binds. -/
theorem bound_iff {pending : Pending} {runId : String} (hrun : runId ≠ "") (hs : s.Templated)
    (call : Call) (calls : List Call) :
    ∃ bound, persistAll runId (rememberTemplates pending runId s)
        ((call :: calls).map Call.written) = .ok bound ∧
      ∀ t ∈ s.annotationTemplates, t.isPyreason = true → ∀ a, (t, a) ∈ bound ↔
        ∃ k e, call.sources[t.factIndex]? = some (k, e) ∧ e.valid = some a := by
  have hpending : Dict.get? (rememberTemplates pending runId s) runId = some s.annotationTemplates :=
    Dict.get?_set_self pending runId s.annotationTemplates
  obtain ⟨bound, hbound, hmem⟩ := collect_bindOne hs fun t => asrtIdByIndex call.written t.factIndex
  have hcall : ∃ bound', (persistPyreasonAnnotations (rememberTemplates pending runId s) runId
      call.written).2 = .ok bound' ∧ ∀ t a, (t, a) ∈ bound' ↔ t ∈ s.annotationTemplates ∧
        t.isPyreason = true ∧ asrtIdByIndex call.written t.factIndex = some a := by
    unfold persistPyreasonAnnotations
    rw [if_neg hrun, hpending]
    dsimp only
    by_cases hnone : call.written.all (fun e => e.valid.isNone) = true
    · rw [if_pos hnone]
      refine ⟨[], rfl, fun t a => ?_⟩
      constructor
      · intro h
        cases h
      · rintro ⟨-, -, ha⟩
        obtain ⟨e, he, hvalid⟩ := Option.bind_eq_some_iff.mp ha
        have hinvalid := List.all_eq_true.mp hnone e (List.mem_of_getElem? he)
        rw [hvalid] at hinvalid
        cases hinvalid
    · rw [if_neg hnone]
      exact ⟨bound, hbound, hmem⟩
  obtain ⟨bound', hok, hmem'⟩ := hcall
  have hleft : (persistPyreasonAnnotations (rememberTemplates pending runId s) runId
      call.written).1 = Dict.remove (rememberTemplates pending runId s) runId := by
    unfold persistPyreasonAnnotations
    rw [if_neg hrun]
  refine ⟨bound', ?_, ?_⟩
  · rw [List.map_cons, persistAll]
    dsimp only
    rw [hok, ok_bind, hleft, persistAll_taken hrun (Dict.get?_remove_self _ runId), ok_bind,
      List.append_nil]
  · intro t ht hown a
    rw [hmem', ← asrtIdByIndex_eq_some_iff]
    exact ⟨fun h => h.2.2, fun h => ⟨ht, hown, h⟩⟩

/-! ## When the two ways of counting agree -/

/-- An assertion is written for one fact. -/
theorem Acceptance.Wrote.unique {acc : Acceptance s} {k k' : FactKey} {a : String}
    (h : acc.Wrote k a) (h' : acc.Wrote k' a) : k = k' := by
  obtain ⟨call, hcall, e, hsource, ha⟩ := h
  obtain ⟨call', hcall', e', hsource', ha'⟩ := h'
  exact acc.ofOneFact (k, e) (List.mem_flatMap.mpr ⟨call, hcall, hsource⟩) (k', e')
    (List.mem_flatMap.mpr ⟨call', hcall', hsource'⟩) (by rw [ha]; rfl) (ha.trans ha'.symm)

theorem Acceptance.Wrote.hasFact {acc : Acceptance s} {k : FactKey} {a : String}
    (h : acc.Wrote k a) : s.HasFact k := by
  obtain ⟨call, hcall, e, hsource, -⟩ := h
  obtain ⟨p, hp, hmem⟩ := List.mem_flatMap.mp hsource
  obtain ⟨e', -, heq⟩ := List.mem_map.mp hmem
  cases heq
  exact hasFact_of_mem_candidates (acc.ofCandidates call hcall p hp)

/-- The first call binds every template to the assertion of its own fact. -/
def Acceptance.Binds (acc : Acceptance s) (call : Call) : Prop :=
  ∀ t ∈ s.annotationTemplates, t.isPyreason = true → ∀ a,
    (∃ k e, call.sources[t.factIndex]? = some (k, e) ∧ e.valid = some a) ↔ acc.Wrote t.key a

theorem reaches_iff_binds {pending : Pending} {runId : String} (hrun : runId ≠ "") (hs : s.Templated)
    (acc : Acceptance s) {call : Call} {calls : List Call} (hcalls : acc.calls = call :: calls) :
    acc.Reaches pending runId ↔ acc.Binds call := by
  obtain ⟨bound, hbound, hbinds⟩ := @bound_iff s pending runId hrun hs call calls
  unfold Acceptance.Reaches Acceptance.Binds
  rw [hcalls, hbound]
  constructor
  · rintro ⟨bound', heq, h⟩ t ht hown a
    cases heq
    rw [← hbinds t ht hown a]
    exact h t ht hown a
  · intro h
    exact ⟨bound, rfl, fun t ht hown a => (hbinds t ht hown a).trans (h t ht hown a)⟩

section Calls

variable (hs : s.Templated) (acc : Acceptance s) {call : Call} {calls : List Call}
  (hcalls : acc.calls = call :: calls)

include hs hcalls

/-- What stands at a place is bound to the templates of every fact that has the place. -/
theorem Acceptance.Binds.alone (h : acc.Binds call) {i : Nat} {k k' : FactKey} {e : Entry} {a : String}
    (hi : call.sources[i]? = some (k, e)) (ha : e.valid = some a) (hk' : s.HasFact k')
    (hindex : k'.index = i) : k' = k := by
  have hwrote : acc.Wrote k a :=
    ⟨call, hcalls ▸ List.mem_cons_self, e, List.mem_of_getElem? hi, ha⟩
  obtain ⟨t, ht, hkey, hown⟩ := hs.covered k' hk'
  have hplace : t.factIndex = i := (congrArg FactKey.index hkey).trans hindex
  have hwrote' : acc.Wrote t.key a := (h t ht hown a).mp ⟨k, e, by rw [hplace]; exact hi, ha⟩
  rw [← hkey]
  exact hwrote'.unique hwrote

omit hcalls in
/-- What was written for a fact stands at the place of the fact. -/
theorem Acceptance.Binds.placed (h : acc.Binds call) {k : FactKey} {a : String}
    (hmem : call ∈ acc.calls) (hwrote : acc.Wrote k a) :
    ∃ e, call.sources[k.index]? = some (k, e) ∧ e.valid = some a := by
  obtain ⟨t, ht, hkey, hown⟩ := hs.covered k hwrote.hasFact
  obtain ⟨k', e, hi, ha⟩ := (h t ht hown a).mpr (by rw [hkey]; exact hwrote)
  have hwrote' : acc.Wrote k' a := ⟨call, hmem, e, List.mem_of_getElem? hi, ha⟩
  obtain rfl : k = k' := hwrote.unique hwrote'
  have hplace : t.factIndex = k.index := congrArg FactKey.index hkey
  exact ⟨e, by rw [← hplace]; exact hi, ha⟩

theorem Acceptance.Aligned.binds (h : acc.Aligned) : acc.Binds call := by
  have hhead : acc.calls.head? = some call := by rw [hcalls]; rfl
  intro t ht hown a
  constructor
  · rintro ⟨k, e, hi, ha⟩
    have hkey : t.key = k := h.alone call hhead _ k e hi (by rw [ha]; rfl) t.key (hs.about t ht) rfl
    rw [hkey]
    exact ⟨call, hcalls ▸ List.mem_cons_self, e, List.mem_of_getElem? hi, ha⟩
  · intro hwrote
    obtain ⟨e, hi, ha⟩ := h.placed call hhead t.key a hwrote
    exact ⟨t.key, e, hi, ha⟩

end Calls

/-- **Templates reach their own assertions just if acceptance is aligned with the facts**, for every
evaluation and every acceptance of candidates of it. -/
theorem annotations_reach_iff {host : Host} {interpretation : List Label} {input derived : Session}
    (hderived : extractDerivedFacts host interpretation input = .ok derived)
    (acc : Acceptance derived) (pending : Pending) {runId : String} (hrun : runId ≠ "") :
    acc.Reaches pending runId ↔ acc.Aligned := by
  have hs := templated_of_extract hderived
  cases hcalls : acc.calls with
  | nil =>
    have hnone : ∀ call, call ∉ acc.calls := by simp [hcalls]
    constructor
    · intro _
      exact ⟨fun call hcall => absurd (List.mem_of_head? hcall) (hnone call),
        fun call hcall => absurd (List.mem_of_head? hcall) (hnone call)⟩
    · intro _
      refine ⟨[], by rw [hcalls]; rfl, ?_⟩
      intro t _ _ a
      constructor
      · intro h
        cases h
      · rintro ⟨call, hcall, -⟩
        exact absurd hcall (hnone call)
  | cons call calls =>
    rw [reaches_iff_binds hrun hs acc hcalls]
    constructor
    · intro h
      refine ⟨?_, ?_⟩
      · intro call' hhead i k e hi hvalid k' hk' hindex
        rw [hcalls] at hhead
        cases hhead
        obtain ⟨a, ha⟩ := Option.isSome_iff_exists.mp hvalid
        exact h.alone hs acc hcalls hi ha hk' hindex
      · intro first hhead k a hwrote
        rw [hcalls] at hhead
        cases hhead
        exact h.placed hs acc (hcalls ▸ List.mem_cons_self) hwrote
    · intro h
      exact h.binds hs acc hcalls

/-! ## One node and one edge -/

/-- A schema of one node predicate and one relationship. -/
def socialSchema : List SchemaPred :=
  [{ predId := "user:popular", argDomains := ["entity_ref", "string"] },
    { predId := "friends:strength", isRelationship := true,
      argDomains := ["entity_ref", "entity_ref", "string"] }]

/-- The engine derives that Alice is popular, and perhaps an edge. -/
def socialLabels (withEdge : Bool) : List Label :=
  ⟨1, "Alice", "popular", .certain⟩ ::
    if withEdge then [⟨1, "(Alice, Bob)", "strength", .certain⟩] else []

/-- What is derived. -/
def socialDerived (withEdge : Bool) : Session where
  schema := socialSchema
  nodeFacts := [⟨"user:popular", "Alice", "true", .certain, 1, none, derivedMeta 1⟩]
  edgeFacts := if withEdge then
    [⟨"friends:strength", "Alice", "Bob", "", .certain, 1, none, derivedMeta 1⟩] else []
  annotationTemplates :=
    generateAnnotationTemplates 0 .node .certain 1 none (derivedMeta 1) ++
      if withEdge then generateAnnotationTemplates 0 .edge .certain 1 none (derivedMeta 1) else []

/-- The node fact is accepted, and accepted again: the second time it is a duplicate, and its
assertion is listed once more. -/
def acceptPopular (withEdge : Bool) : Acceptance (socialDerived withEdge) where
  calls := [[(⟨.node, 0⟩, [⟨some "a1"⟩])], [(⟨.node, 0⟩, [⟨some "a1"⟩])]]
  ofCandidates := by cases withEdge <;> decide
  ofOneFact := by decide

/-- Where the run derived the node fact alone, its templates reach it. -/
theorem popular_alone_reaches : (acceptPopular false).Reaches [] "run" := by
  have hderived : extractDerivedFacts plainHost (socialLabels false) { schema := socialSchema } =
      .ok (socialDerived false) := by decide +kernel
  refine (annotations_reach_iff hderived (acceptPopular false) [] (by decide)).mpr ⟨?_, ?_⟩
  · intro call hcall i k e hi _ k' hk' hindex
    cases hcall
    have hsource : ([(⟨.node, 0⟩, ⟨some "a1"⟩)] : List (FactKey × Entry))[i]? = some (k, e) := hi
    obtain ⟨hlt, heq⟩ := List.getElem?_eq_some_iff.mp hsource
    obtain rfl : i = 0 := Nat.lt_one_iff.mp hlt
    cases heq
    obtain ⟨_ | _, j⟩ := k'
    · exact congrArg (FactKey.mk .node) hindex
    · exact absurd hk' (Nat.not_lt_zero j)
  · rintro first hfirst k a ⟨call, hcall, e, hsource, ha⟩
    cases hfirst
    have hboth : (k, e) = (⟨.node, 0⟩, ⟨some "a1"⟩) := by
      rcases List.mem_cons.mp hcall with rfl | hcall
      · exact List.mem_singleton.mp hsource
      · cases List.mem_singleton.mp hcall
        exact List.mem_singleton.mp hsource
    cases hboth
    exact ⟨⟨some "a1"⟩, rfl, ha⟩

/-- Where it derived an edge fact too, the templates of the edge reach the node. -/
theorem popular_beside_edge_misses :
    extractDerivedFacts plainHost (socialLabels true) { schema := socialSchema } =
      .ok (socialDerived true) ∧
    ¬ (acceptPopular true).Reaches [] "run" := by
  refine ⟨by decide +kernel, ?_⟩
  rintro ⟨bound, hbound, h⟩
  have hedge : (⟨.edge, 0, semantic "bound_lower" "float" (.bound one)⟩ : Template) ∈
      (socialDerived true).annotationTemplates := by decide
  have hbinds : (⟨.edge, 0, semantic "bound_lower" "float" (.bound one)⟩, "a1") ∈
      (persistAll "run" (rememberTemplates [] "run" (socialDerived true))
        ((acceptPopular true).calls.map Call.written)).toOption.getD [] := by decide
  rw [hbound] at hbinds
  obtain ⟨call, hcall, e, hsource, -⟩ := (h _ hedge rfl "a1").mp hbinds
  have hnone : ∀ call ∈ (acceptPopular true).calls, ∀ e, (⟨.edge, 0⟩, e) ∉ call.sources := by
    intro call hcall e hsource
    rcases List.mem_cons.mp hcall with rfl | hcall
    · cases List.mem_singleton.mp hsource
    · cases List.mem_singleton.mp hcall
      cases List.mem_singleton.mp hsource
  exact hnone call hcall e hsource

end FactGraph.Pyreason
