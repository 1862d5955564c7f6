import FactGraph.Codec.Scalars
import FactGraph.Lib.Text

/-!
# The names that PyReason sees

`adapters/pyreason/_helpers.py` and `_clean_var` of `adapters/pyreason/where_compile.py`. PyReason
knows no predicate ids and no `$` before a variable: a predicate goes by what follows the first colon of
its id, and a variable by its name. Of an edge PyReason answers with a text of its own making, and the
adapter has to find the two nodes in it.

Each of these is undone on some texts only, and the lemmas here say which: a short name tells the ids
up to their owners (`predShortName_eq_iff`), and a component gives two nodes back just if it has them in
brackets around one comma, or else on the two sides of its first dash (`parseEdgeComponent_iff`).
Python's own text of a pair has its parts in quotes, which the adapter does not take off
(`not_spellsEdge_pairText`).
-/

namespace FactGraph.Pyreason

open Text Codec

/-! ## Predicates -/

/-- `_pred_short_name`. -/
def predShortName (predId : String) : String :=
  match cut ':' predId.toList with
  | some (_, name) => String.ofList name
  | none => predId

/-- The id is this name, with an owner before it or with none. -/
def Spells (predId name : String) : Prop :=
  predId = name ∧ ':' ∉ name.toList ∨
    ∃ owner : List Char, ':' ∉ owner ∧ predId.toList = owner ++ ':' :: name.toList

theorem predShortName_eq_iff {predId name : String} :
    predShortName predId = name ↔ Spells predId name := by
  unfold predShortName
  cases hcut : cut ':' predId.toList with
  | none =>
    have hmem := cut_eq_none_iff.mp hcut
    constructor
    · rintro rfl
      exact .inl ⟨rfl, hmem⟩
    · rintro (⟨rfl, -⟩ | ⟨owner, -, heq⟩)
      · rfl
      · rw [heq] at hmem
        exact absurd (List.mem_append_right owner List.mem_cons_self) hmem
  | some p =>
    obtain ⟨hmem, heq⟩ := cut_eq_some_iff.mp hcut
    constructor
    · rintro rfl
      exact .inr ⟨p.1, hmem, by rw [String.toList_ofList, heq]⟩
    · rintro (⟨rfl, hname⟩ | ⟨owner, howner, hspelled⟩)
      · rw [heq] at hname
        exact absurd (List.mem_append_right p.1 List.mem_cons_self) hname
      · have hsame := cut_eq_some_iff.mpr ⟨howner, hspelled⟩
        rw [hcut, Option.some.injEq] at hsame
        rw [hsame]
        exact String.ofList_toList

/-! ## Variables -/

/-- `_clean_var`. -/
def cleanVar (token : String) : String :=
  match token.toList with
  | '$' :: name => String.ofList name
  | _ => token

/-- `token.startswith("$")`. -/
def isVar (token : String) : Bool := token.toList.head? = some '$'

theorem isVar_iff {token : String} :
    isVar token = true ↔ ∃ name : String, token.toList = '$' :: name.toList := by
  unfold isVar
  rw [decide_eq_true_eq, List.head?_eq_some_iff]
  constructor
  · rintro ⟨cs, heq⟩
    exact ⟨String.ofList cs, by rw [heq, String.toList_ofList]⟩
  · rintro ⟨name, heq⟩
    exact ⟨name.toList, heq⟩

theorem cleanVar_of_var {token name : String} (h : token.toList = '$' :: name.toList) :
    cleanVar token = name := by
  unfold cleanVar
  rw [h]
  exact String.ofList_toList

theorem cleanVar_of_not_var {token : String} (h : isVar token = false) : cleanVar token = token := by
  unfold cleanVar
  split
  · rename_i name heq
    rw [isVar, heq] at h
    exact absurd h (by simp)
  · rfl

/-- Two variables have two names. -/
theorem cleanVar_inj {x y : String} (hx : isVar x = true) (hy : isVar y = true)
    (h : cleanVar x = cleanVar y) : x = y := by
  obtain ⟨m, hm⟩ := isVar_iff.mp hx
  obtain ⟨n, hn⟩ := isVar_iff.mp hy
  rw [cleanVar_of_var hm, cleanVar_of_var hn] at h
  apply String.toList_injective
  rw [hm, hn, h]

/-! ## Edges -/

/-- `_parse_edge_component`, on characters. -/
def parseEdgeChars (component : List Char) : Option (List Char × List Char) :=
  if component.head? = some '(' ∧ component.getLast? = some ')' then
    match (component.tail.dropLast.splitOn ',').map strip with
    | [a, b] => some (a, b)
    | _ => cut '-' component
  else cut '-' component

/-- `_parse_edge_component`. -/
def parseEdgeComponent (component : String) : Option (String × String) :=
  (parseEdgeChars component.toList).map fun p => (String.ofList p.1, String.ofList p.2)

/-- Two parts in brackets, with the one comma between them. -/
def Bracketed (text x y : List Char) : Prop :=
  text = '(' :: (x ++ ',' :: y) ++ [')'] ∧ ',' ∉ x ∧ ',' ∉ y

/-- The text of an edge shows where its two nodes are: it has them in brackets, with one comma between
them and white space around them at will, or else it is cut at its first dash. -/
def SpellsEdge (text a b : String) : Prop :=
  (∃ x y, Bracketed text.toList x y ∧ strip x = a.toList ∧ strip y = b.toList) ∨
    (∀ x y, ¬ Bracketed text.toList x y) ∧
      '-' ∉ a.toList ∧ text.toList = a.toList ++ '-' :: b.toList

/-- Two parts of a text are its parts at commas just if there is one comma, between them. -/
theorem splitOn_eq_pair_iff {c : Char} {cs p q : List Char} :
    cs.splitOn c = [p, q] ↔ cs = p ++ c :: q ∧ c ∉ p ∧ c ∉ q := by
  constructor
  · intro h
    have hjoined : [c].intercalate (cs.splitOn c) = cs := List.intercalate_splitOn c
    rw [h, List.intercalate_cons_cons, List.intercalate_singleton, List.append_assoc,
      List.singleton_append] at hjoined
    -- two parts, so the text has one separator, and that is the one between them
    have hcount := length_splitOn (c := c) cs
    rw [h, ← hjoined, List.count_append, List.count_cons_self] at hcount
    simp only [List.length_cons, List.length_nil] at hcount
    exact ⟨hjoined.symm, List.count_eq_zero.mp (by omega), List.count_eq_zero.mp (by omega)⟩
  · rintro ⟨rfl, hp, hq⟩
    rw [List.splitOn_append_cons_self, List.splitOn_eq_singleton hp, List.splitOn_eq_singleton hq]
    rfl

theorem bracketed_ends {text x y : List Char} (h : Bracketed text x y) :
    text.head? = some '(' ∧ text.getLast? = some ')' ∧ text.tail.dropLast = x ++ ',' :: y := by
  obtain ⟨rfl, -, -⟩ := h
  refine ⟨rfl, List.getLast?_concat, ?_⟩
  rw [List.cons_append, List.tail_cons, List.dropLast_concat]

/-- What stands between the brackets is in two parts just if the text is of this form. -/
theorem bracketed_iff {text x y : List Char}
    (h : text.head? = some '(' ∧ text.getLast? = some ')') :
    Bracketed text x y ↔ text.tail.dropLast.splitOn ',' = [x, y] := by
  rw [splitOn_eq_pair_iff]
  constructor
  · intro hb
    exact ⟨(bracketed_ends hb).2.2, hb.2⟩
  · rintro ⟨hinner, hcommas⟩
    refine ⟨?_, hcommas⟩
    obtain ⟨cs, rfl⟩ := List.head?_eq_some_iff.mp h.1
    have hlast := h.2
    rw [List.getLast?_cons] at hlast
    cases hcs : cs.getLast? with
    | none =>
      rw [hcs] at hlast
      exact absurd hlast (by decide)
    | some c =>
      rw [hcs, Option.getD_some, Option.some.injEq] at hlast
      rw [List.tail_cons] at hinner
      rw [← hinner, List.cons_append, ← hlast, List.dropLast_append_getLast? c hcs]

/-- **A component is split into two nodes just if it shows where they are.** -/
theorem parseEdgeComponent_iff {text a b : String} :
    parseEdgeComponent text = some (a, b) ↔ SpellsEdge text a b := by
  have hchars : parseEdgeComponent text = some (a, b) ↔
      parseEdgeChars text.toList = some (a.toList, b.toList) := by
    unfold parseEdgeComponent
    rw [Option.map_eq_some_iff]
    constructor
    · rintro ⟨p, hp, heq⟩
      rw [Prod.mk.injEq] at heq
      rw [hp, ← heq.1, ← heq.2, String.toList_ofList, String.toList_ofList]
    · intro h
      exact ⟨_, h, by rw [String.ofList_toList, String.ofList_toList]⟩
  rw [hchars]
  unfold parseEdgeChars SpellsEdge
  by_cases hends : text.toList.head? = some '(' ∧ text.toList.getLast? = some ')'
  · simp only [if_pos hends, bracketed_iff hends]
    by_cases hpair : ∃ x y, text.toList.tail.dropLast.splitOn ',' = [x, y]
    · obtain ⟨x, y, heq⟩ := hpair
      simp [heq]
    · have hnot : ∀ x y, text.toList.tail.dropLast.splitOn ',' ≠ [x, y] :=
        fun x y heq => hpair ⟨x, y, heq⟩
      split
      · rename_i p q heq
        obtain ⟨x, y, hxy⟩ := List.length_eq_two.mp (by
          rw [← List.length_map (f := strip), heq]
          rfl)
        exact absurd hxy (hnot x y)
      · simp [hnot, cut_eq_some_iff]
  · rw [if_neg hends, cut_eq_some_iff]
    have hnot : ∀ x y, ¬ Bracketed text.toList x y :=
      fun x y hb => hends ⟨(bracketed_ends hb).1, (bracketed_ends hb).2.1⟩
    simp [hnot]

/-- `str` of a pair of texts, from the `repr` of each. -/
def pairText (repr : String → String) (a b : String) : String :=
  "(" ++ repr a ++ ", " ++ repr b ++ ")"

/-- What Python writes for a text: the text in quotes, with more characters where some are escaped. -/
def Quotes (repr : String → String) : Prop :=
  ∀ s, ∃ quote body, isPySpace quote = false ∧ (repr s).toList = quote :: body ++ [quote] ∧
    s.toList.length ≤ body.length

/-- Nothing is stripped from a text in quotes. -/
theorem strip_quoted {quote : Char} {body : List Char} (hquote : isPySpace quote = false) :
    strip (quote :: body ++ [quote]) = quote :: body ++ [quote] := by
  simp [strip, hquote]

/-- **The text of a pair is never split into the two nodes**: their quotes stay with them. -/
theorem not_spellsEdge_pairText {repr : String → String} (hrepr : Quotes repr) (a b : String) :
    ¬ SpellsEdge (pairText repr a b) a b := by
  obtain ⟨quote, body, hquote, ha, hbody⟩ := hrepr a
  obtain ⟨quote', body', -, hb, hbody'⟩ := hrepr b
  have htext : (pairText repr a b).toList =
      '(' :: ((repr a).toList ++ ',' :: ' ' :: (repr b).toList) ++ [')'] := by
    simp [pairText]
  rintro (⟨x, y, ⟨heq, hx, hy⟩, hstrip, -⟩ | ⟨-, -, heq⟩)
  · rw [htext, List.append_cancel_right_eq, List.cons.injEq, and_iff_right rfl] at heq
    have hcount := congrArg (List.count ',') heq
    rw [List.count_append, List.count_append, List.count_cons_self, List.count_cons_self,
      List.count_eq_zero.mpr hx, List.count_eq_zero.mpr hy] at hcount
    have hrepra : ',' ∉ (repr a).toList := List.count_eq_zero.mp (by omega)
    have hcut := cut_eq_some_iff.mpr ⟨hx, heq⟩
    rw [cut_eq_some_iff.mpr ⟨hrepra, rfl⟩, Option.some.injEq, Prod.mk.injEq] at hcut
    rw [← hcut.1, ha, strip_quoted hquote] at hstrip
    have hlength := congrArg List.length hstrip
    simp only [List.length_append, List.length_cons, List.length_nil] at hlength
    omega
  · rw [htext, ha, hb] at heq
    have hlength := congrArg List.length heq
    simp only [List.length_append, List.length_cons, List.length_nil] at hlength
    omega

/-!
## The session

`adapters/pyreason/session.py`: the facts for one run of PyReason, buffered in two lists, the facts
about nodes and those about edges. Beside every fact the session writes the templates of its
annotations, and a template refers to its fact by the kind of the fact and its place among the facts
of that kind (`Session.Templated`).
-/

open Protocol Check

/-- What the adapter calls of the standard library: `str` on a cell and on a float, `float` and `int`
with base 16 on a text. A text is its own `str`. -/
structure Host where
  str : Rules.Value → String
  str_str : ∀ s, str (.str s) = s
  floatStr : F64 → String
  float? : String → Option F64
  hexInt? : String → Option Nat

/-- A host that can write texts and integers. -/
def plainHost : Host where
  str
    | .str s => s
    | .int i => toString i
    | _ => ""
  str_str := fun _ => rfl
  floatStr := fun _ => "1.0"
  float? := fun _ => none
  hexInt? := fun _ => none

/-- What the adapter raises: `ValueError` and `PyReasonWhereCompileError`. -/
inductive Err where
  | value (message : String)
  | whereCompile (message : String)
  deriving DecidableEq, Repr

/-! ## The schema -/

/-- A predicate of a checked schema, as far as the adapter reads it. -/
structure SchemaPred where
  predId : String
  /-- `pred.get("relationship_type")` is there. -/
  isRelationship : Bool := false
  /-- `pred.get("pyreason_bounded")` is there. -/
  isBounded : Bool := false
  /-- The `type_domain` of each `arg_spec`. -/
  argDomains : List String := []
  deriving DecidableEq

/-- `_relationship_pred_ids`. -/
def relationshipPredIds (schema : List SchemaPred) : List String :=
  (schema.filter SchemaPred.isRelationship).map SchemaPred.predId

/-- `_bounded_pred_ids`. -/
def boundedPredIds (schema : List SchemaPred) : List String :=
  (schema.filter fun pred => pred.isBounded &&
    match pred.argDomains[if pred.isRelationship then 2 else 1]? with
    | some domain => domain ∈ ["int", "float64", "float32"]
    | none => false).map SchemaPred.predId

/-! ## Facts -/

/-- An interval `[lo, hi]`. -/
structure Bound where
  lo : F64
  hi : F64
  deriving DecidableEq, Repr

/-- `1.0`. -/
def one : F64 := ⟨0x3ff0000000000000⟩

/-- `(1.0, 1.0)`. -/
def Bound.certain : Bound := ⟨one, one⟩

/-- `0.0 <= x <= 1.0`. -/
def inUnit (x : F64) : Bool := x.isFinite && (0 ≤ x.toRat && x.toRat ≤ 1)

/-- The metadata of a fact. -/
abbrev Meta := List (String × Rules.Value)

structure NodeFact where
  predId : String
  nodeRef : String
  value : String
  bound : Bound
  activeFrom : Nat
  activeTo : Option Nat
  metadata : Meta
  deriving DecidableEq

structure EdgeFact where
  predId : String
  fromRef : String
  toRef : String
  value : String
  bound : Bound
  activeFrom : Nat
  activeTo : Option Nat
  metadata : Meta
  deriving DecidableEq

/-! ## Templates -/

/-- `fact_kind`. -/
inductive FactKind where
  | node
  | edge
  deriving DecidableEq, Repr

/-- The value of an annotation: a bound, a step, or a cell of the metadata. -/
inductive AnnotationValue where
  | bound (x : F64)
  | step (n : Nat)
  | cell (v : Rules.Value)
  deriving DecidableEq

/-- What an annotation says, apart from the assertion it is about. -/
structure Annotation where
  space : String
  category : String
  key : String
  kind : String
  value : AnnotationValue
  origin : String := "observed"
  derivation : Option String := none
  deriving DecidableEq

/-- An annotation that waits for its assertion. -/
structure Template where
  factKind : FactKind
  factIndex : Nat
  annotation : Annotation
  deriving DecidableEq

/-- `_ANNOTATION_SOURCE_KEYS`. -/
def annotationSourceKeys : List String := ["source", "analyst", "method"]

/-- The annotation of a step or a bound. -/
def semantic (key kind : String) (value : AnnotationValue) : Annotation :=
  { space := "pyreason", category := "semantic", key := key, kind := kind, value := value }

/-- The annotations of one fact. -/
def annotationsOf (bound : Bound) (activeFrom : Nat) (activeTo : Option Nat) (metadata : Meta) :
    List Annotation :=
  [semantic "bound_lower" "float" (.bound bound.lo), semantic "bound_upper" "float" (.bound bound.hi)] ++
    (if activeFrom ≠ 0 then [semantic "active_from" "int" (.step activeFrom)] else []) ++
    (match activeTo with
      | some n => [semantic "active_to" "int" (.step n)]
      | none => []) ++
    annotationSourceKeys.filterMap fun key =>
      match Dict.get? metadata key with
      | none | some .none => none
      | some v => some
          { space := "shared", category := "source", key := key, kind := "str", value := .cell v }

/-- `_generate_annotation_templates`. -/
def generateAnnotationTemplates (factIndex : Nat) (factKind : FactKind) (bound : Bound)
    (activeFrom : Nat) (activeTo : Option Nat) (metadata : Meta) : List Template :=
  (annotationsOf bound activeFrom activeTo metadata).map fun a => ⟨factKind, factIndex, a⟩

/-! ## The session -/

structure Session where
  schema : List SchemaPred
  nodeFacts : List NodeFact := []
  edgeFacts : List EdgeFact := []
  annotationTemplates : List Template := []
  deriving DecidableEq

/-- `_pred_ids`. -/
def Session.predIds (s : Session) : List String := s.schema.map SchemaPred.predId

/-- `_validate_bound`. -/
def validateBound (host : Host) (bound : Bound) : Except Err Bound := do
  require (inUnit bound.lo && inUnit bound.hi) (.value
    s!"bound values must be in [0, 1], got [{host.floatStr bound.lo}, {host.floatStr bound.hi}]")
  require (bound.lo.toRat ≤ bound.hi.toRat) (.value
    s!"bound lower must be <= upper, got [{host.floatStr bound.lo}, {host.floatStr bound.hi}]")
  .ok bound

/-- `_validate_active_from`. -/
def validateActiveFrom (value : Int) : Except Err Nat :=
  if value < 0 then .error (.value "active_from must be non-negative int") else .ok value.toNat

/-- `_validate_active_to`. -/
def validateActiveTo : Option Int → Except Err (Option Nat)
  | none => .ok none
  | some value =>
      if value < 0 then .error (.value "active_to must be non-negative int or None")
      else .ok (some value.toNat)

/-- `_resolve_shared_meta`. -/
def resolveSharedMeta : Option Meta → Meta
  | none => []
  | some metadata => Dict.remove (Dict.remove metadata "confidence") "confidence_source"

/-- The optional arguments of a write. -/
structure WriteOptions where
  bound : Bound := .certain
  activeFrom : Int := 0
  activeTo : Option Int := none
  metadata : Option Meta := none

/-- `_write_node_fact_internal`. -/
def Session.writeNodeFact (host : Host) (s : Session) (predId nodeRef value : String)
    (opts : WriteOptions) : Except Err Session := do
  require (predId ∈ s.predIds) (.value s!"pred_id '{predId}' not found in schema_ir")
  require (predId ∉ relationshipPredIds s.schema) (.value
    (s!"pred_id '{predId}' is a relationship predicate; " ++ "use _write_edge_fact_internal"))
  require (nodeRef ≠ "") (.value "node_ref must be non-empty string")
  let bound ← validateBound host opts.bound
  let metadata := resolveSharedMeta opts.metadata
  let activeFrom ← validateActiveFrom opts.activeFrom
  let activeTo ← validateActiveTo opts.activeTo
  .ok { s with
    nodeFacts := s.nodeFacts ++ [⟨predId, nodeRef, value, bound, activeFrom, activeTo, metadata⟩]
    annotationTemplates := s.annotationTemplates ++
      generateAnnotationTemplates s.nodeFacts.length .node bound activeFrom activeTo metadata }

/-- `_write_edge_fact_internal`. -/
def Session.writeEdgeFact (host : Host) (s : Session) (predId fromRef toRef value : String)
    (opts : WriteOptions) : Except Err Session := do
  require (predId ∈ s.predIds) (.value s!"pred_id '{predId}' not found in schema_ir")
  require (predId ∈ relationshipPredIds s.schema) (.value
    (s!"pred_id '{predId}' is not a relationship predicate; " ++ "use _write_node_fact_internal"))
  require (fromRef ≠ "") (.value "from_ref must be non-empty string")
  require (toRef ≠ "") (.value "to_ref must be non-empty string")
  let bound ← validateBound host opts.bound
  let metadata := resolveSharedMeta opts.metadata
  let activeFrom ← validateActiveFrom opts.activeFrom
  let activeTo ← validateActiveTo opts.activeTo
  .ok { s with
    edgeFacts := s.edgeFacts ++ [⟨predId, fromRef, toRef, value, bound, activeFrom, activeTo, metadata⟩]
    annotationTemplates := s.annotationTemplates ++
      generateAnnotationTemplates s.edgeFacts.length .edge bound activeFrom activeTo metadata }

/-! ## Entities of a batch -/

/-- The arguments of `PyReasonBatchTx.entity`: the type of the class, the names of its identity fields,
and the values by name. -/
structure BatchEntity where
  entityType : String
  identityOrder : List String
  identityValues : List (String × Rules.Value)
  deriving DecidableEq

/-- The identity of an entity: the values of the identity fields in order, or, if none of them is
given, all that are given. -/
def BatchEntity.identity (e : BatchEntity) : List (String × Rules.Value) :=
  let ordered := e.identityOrder.filterMap fun name =>
    (Dict.get? e.identityValues name).map fun v => (name, v)
  if ordered = [] then e.identityValues else ordered

/-- `ordered_values`. -/
def BatchEntity.orderedValues (host : Host) (e : BatchEntity) : List String :=
  e.identity.map fun p => host.str p.2

/-- `node_ref` of `PyReasonBatchTx.entity`. -/
def BatchEntity.nodeRef (host : Host) (e : BatchEntity) : Except Err String := do
  require (e.identityValues ≠ []) (.value
    s!"entity() requires at least one identity value for {e.entityType}")
  .ok (match e.orderedValues host with
    | [v] => v
    | vs => "_".intercalate vs)

/-! ## What a write leaves -/

/-- What a node fact adds to a session. -/
theorem writeNodeFact_ok {host : Host} {s s' : Session} {predId nodeRef value : String}
    {opts : WriteOptions} (h : s.writeNodeFact host predId nodeRef value opts = .ok s') :
    (predId ∈ s.predIds ∧ predId ∉ relationshipPredIds s.schema ∧ nodeRef ≠ "") ∧
      ∃ fact : NodeFact, fact.predId = predId ∧ fact.nodeRef = nodeRef ∧ fact.value = value ∧
        validateActiveFrom opts.activeFrom = .ok fact.activeFrom ∧
        validateActiveTo opts.activeTo = .ok fact.activeTo ∧
        s' = { s with
          nodeFacts := s.nodeFacts ++ [fact]
          annotationTemplates := s.annotationTemplates ++ generateAnnotationTemplates
            s.nodeFacts.length .node fact.bound fact.activeFrom fact.activeTo fact.metadata } := by
  unfold Session.writeNodeFact at h
  simp only [bind_unit_ok_iff, require_ok_iff, decide_eq_true_eq] at h
  obtain ⟨hpred, hnode, href, h⟩ := h
  simp only [bind_ok_iff] at h
  obtain ⟨bound, -, activeFrom, hfrom, activeTo, hto, heq⟩ := h
  cases heq
  exact ⟨⟨hpred, hnode, href⟩, ⟨predId, nodeRef, value, bound, activeFrom, activeTo, _⟩, rfl, rfl, rfl,
    hfrom, hto, rfl⟩

/-- What an edge fact adds to a session. -/
theorem writeEdgeFact_ok {host : Host} {s s' : Session} {predId fromRef toRef value : String}
    {opts : WriteOptions} (h : s.writeEdgeFact host predId fromRef toRef value opts = .ok s') :
    (predId ∈ s.predIds ∧ predId ∈ relationshipPredIds s.schema ∧ fromRef ≠ "" ∧ toRef ≠ "") ∧
      ∃ fact : EdgeFact, fact.predId = predId ∧ fact.fromRef = fromRef ∧ fact.toRef = toRef ∧
        fact.value = value ∧
        validateActiveFrom opts.activeFrom = .ok fact.activeFrom ∧
        validateActiveTo opts.activeTo = .ok fact.activeTo ∧
        s' = { s with
          edgeFacts := s.edgeFacts ++ [fact]
          annotationTemplates := s.annotationTemplates ++ generateAnnotationTemplates
            s.edgeFacts.length .edge fact.bound fact.activeFrom fact.activeTo fact.metadata } := by
  unfold Session.writeEdgeFact at h
  simp only [bind_unit_ok_iff, require_ok_iff, decide_eq_true_eq] at h
  obtain ⟨hpred, hedge, hfromRef, htoRef, h⟩ := h
  simp only [bind_ok_iff] at h
  obtain ⟨bound, -, activeFrom, hfrom, activeTo, hto, heq⟩ := h
  cases heq
  exact ⟨⟨hpred, hedge, hfromRef, htoRef⟩,
    ⟨predId, fromRef, toRef, value, bound, activeFrom, activeTo, _⟩, rfl, rfl, rfl, rfl, hfrom, hto,
    rfl⟩

end FactGraph.Pyreason
