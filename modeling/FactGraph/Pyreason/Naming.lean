import FactGraph.Pyreason.Runner

/-!
# Rules

`adapters/pyreason/where_compile.py`: a where clause as rules of PyReason, one for each branch. A rule
has an atom for each atom of the branch, and of the terms of an atom only those that stand for
entities: two of a relationship, one of any other predicate.

Names are shortened on the way: a predicate goes without its owner, a variable without its `$`, the
identity of an entity as words joined by underscores, an edge as a text of two nodes. Each loses
something, so each has a condition of its own in `NoClash`, and `naming_faithful_iff` says that the
names are told apart and read back exactly under all of them. How PyReason spells an edge is not known
here: the text is a parameter, and only the reader of it is in the repository.
-/

namespace FactGraph.Pyreason

open Check

/-! ## Clauses -/

/-- A term of a raw clause: a cell, or an object of another type. -/
inductive Term where
  | cell (v : Rules.Value)
  | other (typeName : String)
  deriving DecidableEq

/-- What an element of a clause is: no tuple or an empty one, a `pred` of three elements, whose parts
are absent if they have another type, a `pred` of another length, or a tuple of another kind. -/
inductive AtomShape where
  | shapeless
  | pred (predId : Option String) (terms : Option (List Term))
  | predOfLength
  | kind (kind : String)
  deriving DecidableEq

/-- An element of a clause, with its `repr`. -/
structure Atom where
  repr : String
  shape : AtomShape
  deriving DecidableEq

/-- An element of a where list: an atom, or a list of atoms. -/
inductive WhereItem where
  | atom (a : Atom)
  | branch (repr : String) (atoms : List Atom)
  deriving DecidableEq

/-- The element, taken for an atom. A list is none. -/
def WhereItem.toAtom : WhereItem → Atom
  | .atom a => a
  | .branch repr _ => ⟨repr, .shapeless⟩

/-- The element, if it is a list. -/
def WhereItem.branch? : WhereItem → Option (List Atom)
  | .atom _ => none
  | .branch _ atoms => some atoms

/-- `_extract_branches`. -/
def extractBranches (where_ : List WhereItem) : Except Err (List (List Atom)) := do
  require (where_ ≠ []) (.whereCompile "WHERE clause is empty")
  if where_.all fun item => item.branch?.isSome then
    mapOk (fun branch => do
      require (branch ≠ []) (.whereCompile "WHERE OR branch must be non-empty")
      .ok branch) (where_.filterMap WhereItem.branch?)
  else .ok [where_.map WhereItem.toAtom]

/-! ## Terms -/

/-- `type(term).__name__`. -/
def Term.typeName : Term → String
  | .cell .none => "NoneType"
  | .cell (.bool _) => "bool"
  | .cell (.int _) => "int"
  | .cell (.float _) => "float"
  | .cell (.str _) => "str"
  | .cell (.bytes _) => "bytes"
  | .other typeName => typeName

/-- `_validate_term`. -/
def validateTerm (term : Term) : Except Err Unit :=
  match term with
  | .cell (.str _) | .cell (.int _) | .cell (.float _) => .ok ()
  | _ => .error (.whereCompile s!"Unsupported term type for PyReason v0: {term.typeName}")

/-- `_clean_term`. -/
def cleanTerm (host : Host) (term : Term) : Except Err String := do
  validateTerm term
  .ok (match term with
    | .cell (.str s) => cleanVar s
    | .cell v => host.str v
    | .other typeName => typeName)

/-- The terms of an atom that stand for entities. -/
def entityTerms (relationshipPreds : List String) (predId : String) (terms : List Term) : List Term :=
  terms.take (if predId ∈ relationshipPreds then 2 else 1)

/-- `_compile_terms`. -/
def compileTerms (host : Host) (relationshipPreds : List String) (position predId : String)
    (terms : List Term) : Except Err (List String) := do
  if predId ∈ relationshipPreds then
    require (2 ≤ terms.length) (.whereCompile
      s!"{position} relationship predicate requires at least two entity terms: {predId}")
  else
    require (terms ≠ []) (.whereCompile
      s!"{position} node predicate requires at least one entity term: {predId}")
  mapOk (cleanTerm host) (entityTerms relationshipPreds predId terms)

/-! ## Atoms -/

/-- `_validate_pred_atom`. -/
def validatePredAtom (atom : Atom) : Except Err (String × List Term) :=
  match atom.shape with
  | .shapeless => .error (.whereCompile s!"Invalid WhereIR atom shape: {atom.repr}")
  | .predOfLength =>
      .error (.whereCompile s!"pred atom must have exactly 3 elements: {atom.repr}")
  | .pred predId terms =>
      match predId, terms with
      | some predId, terms => do
          require (predId ≠ "") (.whereCompile
            s!"pred atom pred_id must be non-empty string: {atom.repr}")
          match terms with
          | some terms => do
              each validateTerm terms
              .ok (predId, terms)
          | none => .error (.whereCompile s!"pred atom terms must be list: {atom.repr}")
      | none, _ =>
          .error (.whereCompile s!"pred atom pred_id must be non-empty string: {atom.repr}")
  | .kind "eq" => .error (.whereCompile
      "Equality comparisons (eq) are not supported in PyReason v0")
  | .kind "not" => .error (.whereCompile "Negation (not) is not supported in PyReason v0")
  | .kind "ruleref" => .error (.whereCompile
      "Rule references (ruleref) are not supported in PyReason v0")
  | .kind kind => .error (.whereCompile
      s!"WhereIR atom kind '{kind}' is not supported in PyReason v0")

/-- A checked `PyReasonRuleExt`. -/
structure RuleExt where
  timestepDelay : Nat := 0
  bodyPredicateBounds : List (String × Bound) := []
  headBound : Option Bound := none
  branchHeadBounds : List (Nat × Bound) := []

/-- An atom with its bound, if it has one. -/
def boundedText (host : Host) (text : String) : Option Bound → String
  | none => text
  | some b => text ++ s!" : [{host.floatStr b.lo}, {host.floatStr b.hi}]"

/-- `pred(term, …)`. -/
def atomText (predId : String) (terms : List String) : String :=
  predShortName predId ++ "(" ++ ", ".intercalate terms ++ ")"

/-- One turn of the loop over the atoms of a branch. -/
def compileBodyAtom (host : Host) (relationshipPreds : List String) (ext : RuleExt) (atom : Atom) :
    Except Err String := do
  let (predId, terms) ← validatePredAtom atom
  let compiled ← compileTerms host relationshipPreds "body" predId terms
  .ok (boundedText host (atomText predId compiled) (Dict.get? ext.bodyPredicateBounds predId))

/-- `_compile_single_branch`. -/
def compileSingleBranch (host : Host) (relationshipPreds : List String) (ext : RuleExt)
    (targetPredId : String) (headVars : List Term) (headBound : Option Bound) (atoms : List Atom) :
    Except Err String := do
  require (atoms ≠ []) (.whereCompile "WHERE branch is empty")
  let headTerms ← compileTerms host relationshipPreds "head" targetPredId headVars
  let head := boundedText host (atomText targetPredId headTerms) headBound
  let body ← mapOk (compileBodyAtom host relationshipPreds ext) atoms
  .ok (head ++ s!" <-{ext.timestepDelay} " ++ ", ".intercalate body)

/-- `compile_where_ir_to_pyreason`: the texts of the rules, with their names. -/
def compileWhereIrToPyreason (host : Host) (schema : List SchemaPred) (ext : RuleExt)
    (targetPredId : String) (headVars : List Term) (where_ : List WhereItem) :
    Except Err (List (String × String)) := do
  require (targetPredId ≠ "") (.whereCompile "target_pred_id must be non-empty string")
  let branches ← extractBranches where_
  let baseName := "derived_" ++ predShortName targetPredId
  mapOk (fun (branch, i) => do
    let rule ← compileSingleBranch host (relationshipPredIds schema) ext targetPredId headVars
      ((Dict.get? ext.branchHeadBounds i).or ext.headBound) branch
    .ok (rule, if branches.length = 1 then baseName else baseName ++ s!"_b{i}")) branches.zipIdx

/-! ## What stands in a rule -/

/-- The terms of an atom that its rule names. -/
def Atom.entityTerms (relationshipPreds : List String) (atom : Atom) : List Term :=
  match atom.shape with
  | .pred (some predId) (some terms) => Pyreason.entityTerms relationshipPreds predId terms
  | _ => []

/-- The terms that the rule of a branch names, in the head and in the body. -/
def branchTerms (relationshipPreds : List String) (targetPredId : String) (headVars : List Term)
    (atoms : List Atom) : List Term :=
  entityTerms relationshipPreds targetPredId headVars ++
    atoms.flatMap (Atom.entityTerms relationshipPreds)

/-- The predicate of an atom, where it has one. -/
def Atom.predId? (atom : Atom) : Option String :=
  match atom.shape with
  | .pred predId _ => predId
  | _ => none

/-- Is the term a variable? -/
def Term.isVar : Term → Bool
  | .cell (.str s) => Pyreason.isVar s
  | _ => false

/-- A variable keeps the name after its `$`. -/
theorem cleanTerm_var {host : Host} {s : String} :
    cleanTerm host (.cell (.str s)) = .ok (cleanVar s) := rfl

/-- A constant is written as its text. -/
theorem cleanTerm_const_iff {host : Host} {t : Term} {name : String} (h : t.isVar = false) :
    cleanTerm host t = .ok name ↔
      ∃ v, t = .cell v ∧ validateTerm t = .ok () ∧ host.str v = name := by
  unfold cleanTerm
  rw [bind_unit_ok_iff]
  cases t with
  | other typeName => simp [validateTerm]
  | cell v =>
    cases v with
    | str s =>
      simp only [Term.isVar] at h
      simp [cleanVar_of_not_var h, host.str_str, validateTerm]
    | _ => simp [validateTerm]

/-!
## Which names collide

What the adapter names for one run of PyReason: the predicates of a schema, the variables and the
constants of a rule, the nodes of the facts and of the entities of a batch, and the edges. Every name
loses something: an id its owner, a variable its `$`, the values of an identity where one ends and the
next begins, an edge the place where its text has to be cut. The names are good just if what is lost
is not needed (`naming_faithful_iff`).
-/

open Text

/-! ## Nodes of a batch -/

/-- The texts of an identity, cut at every underscore. -/
def BatchEntity.words (host : Host) (e : BatchEntity) : List (List Char) :=
  (e.orderedValues host).flatMap fun v => v.toList.splitOn '_'

/-- One entity of a batch, whatever the order in which its values were given. -/
def BatchEntity.Same (e e' : BatchEntity) : Prop :=
  e.entityType = e'.entityType ∧ e.identity.Perm e'.identity

theorem BatchEntity.orderedValues_ne_nil {host : Host} {e : BatchEntity} (h : e.identityValues ≠ []) :
    e.orderedValues host ≠ [] := by
  unfold BatchEntity.orderedValues BatchEntity.identity
  rw [Ne, List.map_eq_nil_iff]
  dsimp only
  split
  · exact h
  · assumption

/-- A node is the texts of its identity, joined. -/
theorem BatchEntity.nodeRef_ok_iff {host : Host} {e : BatchEntity} {n : String} :
    e.nodeRef host = .ok n ↔
      e.identityValues ≠ [] ∧ "_".intercalate (e.orderedValues host) = n := by
  unfold BatchEntity.nodeRef
  rw [bind_unit_ok_iff, require_ok_iff, decide_eq_true_eq, Except.ok.injEq]
  refine and_congr_right fun _ => ?_
  split
  · rename_i v heq
    rw [heq, String.intercalate_singleton]
  · rfl

theorem BatchEntity.splitOn_nodeRef {host : Host} {e : BatchEntity} {n : String}
    (h : e.nodeRef host = .ok n) : n.toList.splitOn '_' = e.words host := by
  obtain ⟨hvalues, rfl⟩ := BatchEntity.nodeRef_ok_iff.mp h
  have hne : (e.orderedValues host).map String.toList ≠ [] := by
    rw [Ne, List.map_eq_nil_iff]
    exact BatchEntity.orderedValues_ne_nil hvalues
  have hunderscore : "_".toList = ['_'] := rfl
  rw [String.toList_intercalate, hunderscore, splitOn_intercalate_flatMap hne, List.flatMap_map]
  rfl

/-- Two entities are one node just if their identities are the same words. -/
theorem BatchEntity.nodeRef_eq_iff {host : Host} {e e' : BatchEntity} {n n' : String}
    (h : e.nodeRef host = .ok n) (h' : e'.nodeRef host = .ok n') :
    n = n' ↔ e.words host = e'.words host := by
  rw [← BatchEntity.splitOn_nodeRef h, ← BatchEntity.splitOn_nodeRef h']
  constructor
  · rintro rfl
    rfl
  · intro heq
    apply String.toList_injective
    have hjoined : ['_'].intercalate (n.toList.splitOn '_') = n.toList :=
      List.intercalate_splitOn '_'
    rw [← hjoined, heq, List.intercalate_splitOn]

/-! ## Reading predicates back -/

/-- Where short names are distinct, the lookup of a short name finds its predicate. -/
theorem predLookup_shortName {schema : List SchemaPred} {pred : SchemaPred}
    (hdistinct : ∀ other ∈ schema, predShortName other.predId = predShortName pred.predId →
      other.predId = pred.predId)
    (hpred : pred ∈ schema) : predLookup schema (predShortName pred.predId) = some pred.predId := by
  unfold predLookup
  cases hfind : schema.reverse.find? fun other =>
      predShortName other.predId = predShortName pred.predId with
  | none =>
    have hnone := List.find?_eq_none.mp hfind pred (List.mem_reverse.mpr hpred)
    exact absurd (decide_eq_true rfl) hnone
  | some other =>
    have hmem := List.mem_reverse.mp (List.mem_of_find?_eq_some hfind)
    have hname := List.find?_some hfind
    rw [decide_eq_true_eq] at hname
    rw [Option.map_some, hdistinct other hmem hname]

/-! ## What is named -/

/-- What a run names: the predicates of a schema, the facts of a view, the entities of a batch, and a
rule. -/
structure Given where
  schema : List SchemaPred
  facts : List Placed
  entities : List BatchEntity
  targetPredId : String
  headVars : List Term
  where_ : List WhereItem

/-- The branches of the rule. -/
def Given.branches (g : Given) : List (List Atom) := (extractBranches g.where_).toOption.getD []

/-- The predicates that go by their short names: those of the schema, and those that the rule has in its
head and in its bodies, which need not be in the schema. -/
def Given.predIds (g : Given) : List String :=
  g.schema.map SchemaPred.predId ++
    g.targetPredId :: g.branches.flatMap fun atoms => atoms.filterMap Atom.predId?

/-- The terms that the rule of a branch names. -/
def Given.terms (g : Given) (atoms : List Atom) : List Term :=
  branchTerms (relationshipPredIds g.schema) g.targetPredId g.headVars atoms

/-- The cells of the facts that become nodes. -/
def Given.cells (g : Given) : List Rules.Value := g.facts.flatMap (Placed.cells g.schema)

/-- **What names are for**: they keep apart what is different, and they can be read back. The text of
an edge is PyReason's own (`spelling`). -/
structure Faithful (host : Host) (spelling : String → String → String) (g : Given)
    (session : Session) : Prop where
  predicates : ∀ p ∈ g.predIds, ∀ q ∈ g.predIds, p ≠ q → predShortName p ≠ predShortName q
  readBack : ∀ pred ∈ g.schema, predLookup g.schema (predShortName pred.predId) = some pred.predId
  apart : ∀ atoms ∈ g.branches, ∀ x ∈ g.terms atoms, ∀ y ∈ g.terms atoms,
    x.isVar = true → y.isVar = true → x ≠ y → cleanTerm host x ≠ cleanTerm host y
  constants : ∀ atoms ∈ g.branches, ∀ x ∈ g.terms atoms, ∀ y ∈ g.terms atoms,
    x.isVar = true → y.isVar = false → cleanTerm host x ≠ cleanTerm host y
  nodes : ∀ a ∈ g.cells, ∀ b ∈ g.cells, a ≠ b → host.str a ≠ host.str b
  entities : ∀ e ∈ g.entities, ∀ e' ∈ g.entities, ¬ e.Same e' →
    ∀ n n', e.nodeRef host = .ok n → e'.nodeRef host = .ok n' → n ≠ n'
  edges : ∀ e ∈ session.edgeFacts,
    parseEdgeComponent (spelling e.fromRef e.toRef) = some (e.fromRef, e.toRef)

/-- Nothing that is named needs what its name leaves out. -/
structure NoClash (host : Host) (spelling : String → String → String) (g : Given) : Prop where
  /-- No two predicates differ in the owner alone. -/
  owners : ∀ p ∈ g.predIds, ∀ q ∈ g.predIds, p ≠ q → ∀ name, Spells p name → ¬ Spells q name
  /-- No constant is spelled like a variable of its rule. -/
  constants : ∀ atoms ∈ g.branches, ∀ x name, x.toList = '$' :: name.toList →
    .cell (.str x) ∈ g.terms atoms → ∀ v, .cell v ∈ g.terms atoms →
      (Term.cell v).isVar = false → host.str v ≠ name
  /-- No node is a number that is spelled like another node. -/
  cells : ∀ a ∈ g.cells, (∀ s, a ≠ .str s) → ∀ b ∈ g.cells, a ≠ b → host.str a ≠ host.str b
  /-- No two entities of a batch have the same words in their identities. -/
  words : ∀ e ∈ g.entities, ∀ e' ∈ g.entities, e.identityValues ≠ [] → e'.identityValues ≠ [] →
    ¬ e.Same e' → e.words host ≠ e'.words host
  /-- The text of every edge shows where its nodes are. -/
  edges : ∀ fact ∈ g.facts, ∀ a b, fact.IsEdge g.schema a b →
    SpellsEdge (spelling (host.str a) (host.str b)) (host.str a) (host.str b)

/-! ## The parts -/

section Parts

variable {host : Host} {spelling : String → String → String} {g : Given}

theorem owners_iff :
    (∀ p ∈ g.predIds, ∀ q ∈ g.predIds, p ≠ q → predShortName p ≠ predShortName q) ↔
      ∀ p ∈ g.predIds, ∀ q ∈ g.predIds, p ≠ q → ∀ name, Spells p name → ¬ Spells q name := by
  refine forall₂_congr fun p _ => forall₂_congr fun q _ => imp_congr_right fun _ => ?_
  constructor
  · intro hne name hp hq
    exact hne ((predShortName_eq_iff.mpr hp).trans (predShortName_eq_iff.mpr hq).symm)
  · intro hne heq
    exact hne (predShortName q) (predShortName_eq_iff.mp heq) (predShortName_eq_iff.mp rfl)

/-- The terms that a compiled rule names are texts and numbers. -/
theorem valid_of_compileTerms {rels : List String} {position predId : String} {terms : List Term}
    {names : List String} (h : compileTerms host rels position predId terms = .ok names) :
    ∀ t ∈ entityTerms rels predId terms, validateTerm t = .ok () := by
  have hmap : mapOk (cleanTerm host) (entityTerms rels predId terms) = .ok names := by
    unfold compileTerms at h
    split at h
    · rw [bind_unit_ok_iff] at h
      exact h.2
    · rw [bind_unit_ok_iff] at h
      exact h.2
  intro t ht
  obtain ⟨name, -, hname⟩ := image_of_mapOk hmap ht
  unfold cleanTerm at hname
  rw [bind_unit_ok_iff] at hname
  exact hname.1

theorem valid_of_compileSingleBranch {rels : List String} {ext : RuleExt} {target rule : String}
    {headVars : List Term} {bound : Option Bound} {atoms : List Atom}
    (h : compileSingleBranch host rels ext target headVars bound atoms = .ok rule) :
    ∀ t ∈ branchTerms rels target headVars atoms, validateTerm t = .ok () := by
  unfold compileSingleBranch at h
  rw [bind_unit_ok_iff] at h
  obtain ⟨-, h⟩ := h
  simp only [bind_ok_iff] at h
  obtain ⟨headTerms, hhead, body, hbody, -⟩ := h
  intro t ht
  unfold branchTerms at ht
  rcases List.mem_append.mp ht with ht | ht
  · exact valid_of_compileTerms hhead t ht
  · obtain ⟨atom, hatom, ht⟩ := List.mem_flatMap.mp ht
    obtain ⟨text, -, htext⟩ := image_of_mapOk hbody hatom
    unfold compileBodyAtom at htext
    simp only [bind_ok_iff] at htext
    obtain ⟨⟨predId, terms⟩, hatom, compiled, hcompiled, -⟩ := htext
    have hterms : Atom.entityTerms rels atom = entityTerms rels predId terms := by
      unfold validatePredAtom at hatom
      unfold Atom.entityTerms
      split at hatom
      · cases hatom
      · cases hatom
      · rename_i p ts hshape
        rw [hshape]
        split at hatom
        · rename_i p ts
          rw [bind_unit_ok_iff] at hatom
          obtain ⟨-, hatom⟩ := hatom
          split at hatom
          · rw [bind_unit_ok_iff] at hatom
            cases hatom.2
            rfl
          · cases hatom
        · cases hatom
      all_goals cases hatom
    rw [hterms] at ht
    exact valid_of_compileTerms hcompiled t ht

theorem valid_of_compile {ext : RuleExt} {rules : List (String × String)}
    (h : compileWhereIrToPyreason host g.schema ext g.targetPredId g.headVars g.where_ = .ok rules) :
    ∀ atoms ∈ g.branches, ∀ t ∈ g.terms atoms, validateTerm t = .ok () := by
  unfold compileWhereIrToPyreason at h
  rw [bind_unit_ok_iff] at h
  obtain ⟨-, h⟩ := h
  rw [bind_ok_iff] at h
  obtain ⟨branches, hbranches, h⟩ := h
  intro atoms hatoms t ht
  have heq : g.branches = branches := by
    unfold Given.branches
    rw [hbranches]
    rfl
  rw [heq] at hatoms
  obtain ⟨i, hi⟩ := List.getElem?_of_mem hatoms
  have hnumbered : (atoms, i) ∈ branches.zipIdx := List.mem_zipIdx_iff_getElem?.mpr hi
  obtain ⟨rule, -, hrule⟩ := image_of_mapOk h hnumbered
  rw [bind_ok_iff] at hrule
  obtain ⟨text, htext, -⟩ := hrule
  exact valid_of_compileSingleBranch htext t ht

/-- Constants and variables are apart just if none is spelled like the other. -/
theorem constants_iff (hvalid : ∀ atoms ∈ g.branches, ∀ t ∈ g.terms atoms, validateTerm t = .ok ()) :
    (∀ atoms ∈ g.branches, ∀ x ∈ g.terms atoms, ∀ y ∈ g.terms atoms,
      x.isVar = true → y.isVar = false → cleanTerm host x ≠ cleanTerm host y) ↔
    ∀ atoms ∈ g.branches, ∀ x name, x.toList = '$' :: name.toList →
      .cell (.str x) ∈ g.terms atoms → ∀ v, .cell v ∈ g.terms atoms →
        (Term.cell v).isVar = false → host.str v ≠ name := by
  constructor
  · intro hne atoms hatoms x name hx hmem v hv hconst hstr
    refine hne atoms hatoms _ hmem _ hv (isVar_iff.mpr ⟨name, hx⟩) hconst ?_
    rw [cleanTerm_var, cleanVar_of_var hx, eq_comm]
    exact (cleanTerm_const_iff hconst).mpr ⟨v, rfl, hvalid atoms hatoms _ hv, hstr⟩
  · intro hne atoms hatoms x hx y hy hvar hconst heq
    cases x with
    | other typeName => cases hvar
    | cell u =>
      cases u with
      | str x =>
        obtain ⟨name, hname⟩ := isVar_iff.mp hvar
        rw [cleanTerm_var, cleanVar_of_var hname, eq_comm] at heq
        obtain ⟨v, rfl, -, hstr⟩ := (cleanTerm_const_iff hconst).mp heq
        exact hne atoms hatoms x name hname hx v hy hconst hstr
      | _ => cases hvar

/-- Two variables are never one. -/
theorem apart_of_vars {x y : Term} (hx : x.isVar = true) (hy : y.isVar = true) (hne : x ≠ y) :
    cleanTerm host x ≠ cleanTerm host y := by
  cases x with
  | other typeName => cases hx
  | cell u =>
    cases y with
    | other typeName => cases hy
    | cell v =>
      cases u with
      | str s =>
        cases v with
        | str t =>
          rw [cleanTerm_var, cleanTerm_var]
          intro heq
          exact hne (by rw [cleanVar_inj hx hy (Except.ok.inj heq)])
        | _ => cases hy
      | _ => cases hx

/-- Texts are nodes of their own; only a number can be taken for another node. -/
theorem nodes_iff :
    (∀ a ∈ g.cells, ∀ b ∈ g.cells, a ≠ b → host.str a ≠ host.str b) ↔
      ∀ a ∈ g.cells, (∀ s, a ≠ .str s) → ∀ b ∈ g.cells, a ≠ b → host.str a ≠ host.str b := by
  constructor
  · intro h a ha _
    exact h a ha
  · intro h a ha b hb hne
    by_cases htext : ∃ s, a = .str s
    · obtain ⟨s, rfl⟩ := htext
      by_cases htext' : ∃ t, b = .str t
      · obtain ⟨t, rfl⟩ := htext'
        rw [host.str_str, host.str_str]
        rintro rfl
        exact hne rfl
      · exact (h b hb (not_exists.mp htext') _ ha hne.symm).symm
    · exact h a ha (not_exists.mp htext) b hb hne

theorem entities_iff :
    (∀ e ∈ g.entities, ∀ e' ∈ g.entities, ¬ e.Same e' →
      ∀ n n', e.nodeRef host = .ok n → e'.nodeRef host = .ok n' → n ≠ n') ↔
    ∀ e ∈ g.entities, ∀ e' ∈ g.entities, e.identityValues ≠ [] → e'.identityValues ≠ [] →
      ¬ e.Same e' → e.words host ≠ e'.words host := by
  constructor
  · intro h e he e' he' hvalues hvalues' hsame hwords
    have hn : e.nodeRef host = .ok ("_".intercalate (e.orderedValues host)) :=
      BatchEntity.nodeRef_ok_iff.mpr ⟨hvalues, rfl⟩
    have hn' : e'.nodeRef host = .ok ("_".intercalate (e'.orderedValues host)) :=
      BatchEntity.nodeRef_ok_iff.mpr ⟨hvalues', rfl⟩
    exact h e he e' he' hsame _ _ hn hn' ((BatchEntity.nodeRef_eq_iff hn hn').mpr hwords)
  · intro h e he e' he' hsame n n' hn hn' heq
    refine h e he e' he' (BatchEntity.nodeRef_ok_iff.mp hn).1 (BatchEntity.nodeRef_ok_iff.mp hn').1
      hsame ?_
    exact (BatchEntity.nodeRef_eq_iff hn hn').mp heq

/-- The edges of a session are read back just if the texts of those of the facts show their nodes. -/
theorem edges_iff {session : Session}
    (hsession : materializeEdbSession host g.schema g.facts = .ok session) :
    (∀ e ∈ session.edgeFacts,
      parseEdgeComponent (spelling e.fromRef e.toRef) = some (e.fromRef, e.toRef)) ↔
    ∀ fact ∈ g.facts, ∀ a b, fact.IsEdge g.schema a b →
      SpellsEdge (spelling (host.str a) (host.str b)) (host.str a) (host.str b) := by
  obtain ⟨-, hmem⟩ := edges_of_writeAll hsession
  simp only [List.map_nil, List.not_mem_nil, false_or] at hmem
  constructor
  · intro h fact hfact a b hedge
    obtain ⟨e, he, heq⟩ := List.mem_map.mp ((hmem (host.str a, host.str b)).mpr
      ⟨fact, hfact, a, b, hedge, rfl⟩)
    rw [Prod.mk.injEq] at heq
    have hparse := h e he
    rw [heq.1, heq.2] at hparse
    exact parseEdgeComponent_iff.mp hparse
  · intro h e he
    obtain ⟨fact, hfact, a, b, hedge, heq⟩ := (hmem (e.fromRef, e.toRef)).mp
      (List.mem_map.mpr ⟨e, he, rfl⟩)
    rw [Prod.mk.injEq] at heq
    rw [heq.1, heq.2]
    exact parseEdgeComponent_iff.mpr (h fact hfact a b hedge)

/-- Where edges go by Python's text of a pair, no fact can be an edge. -/
theorem NoClash.no_edges {repr : String → String} (hrepr : Quotes repr)
    (h : NoClash host (pairText repr) g) :
    ∀ fact ∈ g.facts, ∀ a b, ¬ fact.IsEdge g.schema a b := by
  intro fact hfact a b hedge
  exact not_spellsEdge_pairText hrepr _ _ (h.edges fact hfact a b hedge)

end Parts

/-! ## The whole -/

/-- **Names are faithful just if nothing clashes**, for a rule that compiles, facts that are loaded and
any way of spelling edges. -/
theorem naming_faithful_iff {host : Host} {spelling : String → String → String} {g : Given}
    {ext : RuleExt} {rules : List (String × String)} {session : Session}
    (hrules : compileWhereIrToPyreason host g.schema ext g.targetPredId g.headVars g.where_ =
      .ok rules)
    (hsession : materializeEdbSession host g.schema g.facts = .ok session) :
    Faithful host spelling g session ↔ NoClash host spelling g := by
  constructor
  · intro h
    exact {
      owners := owners_iff.mp h.predicates
      constants := (constants_iff (valid_of_compile hrules)).mp h.constants
      cells := nodes_iff.mp h.nodes
      words := entities_iff.mp h.entities
      edges := (edges_iff hsession).mp h.edges }
  · intro h
    have hdistinct := owners_iff.mpr h.owners
    have hschema : ∀ pred ∈ g.schema, pred.predId ∈ g.predIds := fun pred hpred =>
      List.mem_append_left _ (List.mem_map_of_mem hpred)
    exact {
      predicates := hdistinct
      readBack := fun pred hpred => predLookup_shortName
        (fun other hother heq => by_contra fun hne =>
          hdistinct _ (hschema other hother) _ (hschema pred hpred) hne heq) hpred
      apart := fun _ _ x _ y _ hx hy hne => apart_of_vars hx hy hne
      constants := (constants_iff (valid_of_compile hrules)).mpr h.constants
      nodes := nodes_iff.mpr h.cells
      entities := entities_iff.mpr h.words
      edges := (edges_iff hsession).mpr h.edges }

/-! ## Two rules -/

/-- `$X` is popular if a friend of `$X` is, over a schema of two owners. -/
def friendsGiven (otherPred : String) : Given where
  schema := [{ predId := "person:name" }, { predId := otherPred },
    { predId := "friends:strength", isRelationship := true }]
  facts := [⟨"person:name", [.str "Alice", .str "Alice"], (0, none)⟩,
    ⟨"friends:strength", [.str "Alice", .str "Bob", .str "0.9"], (0, none)⟩]
  entities := [⟨"User", ["user_id"], [("user_id", .str "Alice")]⟩]
  targetPredId := "person:name"
  headVars := [.cell (.str "$X")]
  where_ := [.atom ⟨"", .pred (some "friends:strength")
    (some [.cell (.str "$X"), .cell (.str "$Y")])⟩]

/-- The session of its facts. -/
def friendsSession (otherPred : String) : Session where
  schema := (friendsGiven otherPred).schema
  nodeFacts := [⟨"person:name", "Alice", "Alice", .certain, 0, none, []⟩]
  edgeFacts := [⟨"friends:strength", "Alice", "Bob", "0.9", .certain, 0, none, []⟩]
  annotationTemplates := generateAnnotationTemplates 0 .node .certain 0 none [] ++
    generateAnnotationTemplates 0 .edge .certain 0 none []

/-- The same with the fact about a node alone. -/
def aliceGiven : Given :=
  { friendsGiven "company:title" with facts := (friendsGiven "company:title").facts.take 1 }

/-- The session of that fact. -/
def aliceSession : Session where
  schema := aliceGiven.schema
  nodeFacts := (friendsSession "company:title").nodeFacts
  annotationTemplates := generateAnnotationTemplates 0 .node .certain 0 none []

/-- The text of its rule. -/
def friendsRule : String × String := ("name(X) <-0 strength(X, Y)", "derived_name")

/-- `repr` of a text in which nothing is escaped. -/
def plainRepr (s : String) : String := "'" ++ s ++ "'"

theorem quotes_plainRepr : Quotes plainRepr := by
  intro s
  exact ⟨'\'', s.toList, by decide, by simp [plainRepr], le_refl _⟩

/-- Where the other predicate has another name, the names are faithful: without an edge, and with one
if its text has no quotes. -/
theorem friends_faithful :
    Faithful plainHost (pairText plainRepr) aliceGiven aliceSession ∧
      Faithful plainHost (pairText id) (friendsGiven "company:title")
        (friendsSession "company:title") := by
  have hrules : compileWhereIrToPyreason plainHost (friendsGiven "company:title").schema {}
      "person:name" (friendsGiven "company:title").headVars (friendsGiven "company:title").where_ =
      .ok [friendsRule] := by decide +kernel
  have halice : materializeEdbSession plainHost aliceGiven.schema aliceGiven.facts =
      .ok aliceSession := by decide +kernel
  have hsession : materializeEdbSession plainHost (friendsGiven "company:title").schema
      (friendsGiven "company:title").facts = .ok (friendsSession "company:title") := by
    decide +kernel
  have hentity : ∀ e ∈ (friendsGiven "company:title").entities,
      ∀ e' ∈ (friendsGiven "company:title").entities,
      e.identityValues ≠ [] → e'.identityValues ≠ [] →
        ¬ e.Same e' → e.words plainHost ≠ e'.words plainHost := by
    intro e he e' he' _ _ hsame
    rw [List.mem_singleton.mp he, List.mem_singleton.mp he'] at hsame
    exact absurd ⟨rfl, List.Perm.refl _⟩ hsame
  constructor
  · exact (naming_faithful_iff (g := aliceGiven) hrules halice).mpr {
      owners := owners_iff.mp (by decide)
      constants := (constants_iff (valid_of_compile (g := aliceGiven) hrules)).mp (by decide)
      cells := nodes_iff.mp (by decide)
      words := hentity
      edges := (edges_iff halice).mp (by decide) }
  · exact (naming_faithful_iff hrules hsession).mpr {
      owners := owners_iff.mp (by decide)
      constants := (constants_iff (valid_of_compile hrules)).mp (by decide)
      cells := nodes_iff.mp (by decide)
      words := hentity
      edges := (edges_iff hsession).mp (by decide) }

/-- Where it has the same, two predicates are one, though the rule and the facts are accepted; and with
either name the edge is not read back from Python's text of it. -/
theorem owners_clash :
    compileWhereIrToPyreason plainHost (friendsGiven "company:name").schema {} "person:name"
      (friendsGiven "company:name").headVars (friendsGiven "company:name").where_ =
        .ok [friendsRule] ∧
    materializeEdbSession plainHost (friendsGiven "company:name").schema
      (friendsGiven "company:name").facts = .ok (friendsSession "company:name") ∧
    (¬ ∀ p ∈ (friendsGiven "company:name").predIds, ∀ q ∈ (friendsGiven "company:name").predIds,
      p ≠ q → predShortName p ≠ predShortName q) ∧
    ∀ otherPred, ¬ Faithful plainHost (pairText plainRepr) (friendsGiven otherPred)
      (friendsSession otherPred) := by
  refine ⟨by decide +kernel, by decide +kernel, ?_, ?_⟩
  · intro h
    exact h "person:name" (by decide) "company:name" (by decide) (by decide) (by decide)
  · intro otherPred h
    have hmem : ⟨"friends:strength", "Alice", "Bob", "0.9", .certain, 0, none, []⟩ ∈
        (friendsSession otherPred).edgeFacts := List.mem_cons_self
    have hread := parseEdgeComponent_iff.mp (h.edges _ hmem)
    exact not_spellsEdge_pairText quotes_plainRepr "Alice" "Bob" hread

end FactGraph.Pyreason
