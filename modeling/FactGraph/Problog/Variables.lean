import FactGraph.Problog.Export

/-!
# The variables of an exported rule

The clauses `export_problog` writes for a rule, and which variables of the where clause are one
variable in them. A name is written in capitals, with underscores for what is no letter or digit and
without those at its ends, so the variables of a clause are kept apart exactly if no two of them are
alike after that (`apart_iff`). What the exporter makes up begins with `Agg` and is never one of them.
-/

namespace FactGraph.Problog

open Protocol Check

/-! ## Clauses -/

/-- `_predicate_call`. -/
def predicateCall (name : String) (vars : List String) : List Token :=
  if vars = [] then [.text name]
  else .text name :: .text "(" :: join ", " (vars.map fun v => [toProblogTerm (.leaf (.str v))]) ++
    [.text ")"]

/-- What a branch goes with: its probability, or its arm of the weighted choice. -/
inductive Gate where
  | probability (text : String)
  | arm (predicate : String) (keyVariables : List String)

structure Branch where
  body : List Atom
  gate : Gate

/-- `ProbLogWeightedChoiceExt`; an arm is a probability and the name of its predicate. -/
structure WeightedChoice where
  arms : List (String × String)
  domainKeyVariables : List String
  domainBody : List Atom

structure RuleSpec where
  branches : List Branch
  queryVars : List String
  choice : Option WeightedChoice

def branchHead (queryVars : List String) (idx : Nat) : List Token :=
  predicateCall s!"rule_body_{idx}" queryVars

def branchClause (queryVars : List String) (idx : Nat) (body : List Token) : Gate → List Token
  | .probability text =>
      .text text :: .text "::" :: branchHead queryVars idx ++ .text " :- " :: body ++ [.text "."]
  | .arm predicate keyVariables =>
      branchHead queryVars idx ++ .text " :- " :: body ++ .text ", " ::
        predicateCall predicate keyVariables ++ [.text "."]

def branchClauses (queryVars : List String) (idx : Nat) (ctx : CompileContext) :
    List Branch → Except ExportError (List (List Token) × CompileContext)
  | [] => .ok ([], ctx)
  | b :: bs => do
      let (body, ctx) ← compileBody ctx b.body
      let (rest, ctx) ← branchClauses queryVars (idx + 1) ctx bs
      .ok (branchClause queryVars idx body b.gate :: rest, ctx)

def choiceClause (c : WeightedChoice) (domain : List Token) : List Token :=
  join "; " (c.arms.map fun arm =>
    .text arm.1 :: .text "::" :: predicateCall arm.2 c.domainKeyVariables) ++
      .text " :- " :: domain ++ [.text "."]

def answerClause (queryVars : List String) (idx : Nat) : List Token :=
  predicateCall "answer" queryVars ++ .text " :- " :: branchHead queryVars idx ++ [.text "."]

/-- The clauses `export_problog` writes behind the facts. -/
def exportRule (rule : RuleSpec) : Except ExportError (List (List Token)) := do
  let (branches, ctx) ← branchClauses rule.queryVars 0 {} rule.branches
  let choice ← mapOk (fun c => do
    let (domain, _) ← compileBody ctx c.domainBody
    .ok (choiceClause c domain)) rule.choice.toList
  .ok (choice ++ (branches ++ ((List.range rule.branches.length).map (answerClause rule.queryVars) ++
    [.text "query(" :: predicateCall "answer" rule.queryVars ++ [.text ")."]])))

/-! ## Variables of a clause -/

mutual

/-- The variables of an atom; `values` says whether to count the strings `$name` among the values
of an `in` atom, which are no variables but written as such. -/
def varsInAtom (values : Bool) : Atom → List String
  | .pred _ terms => terms.filterMap token?
  | .cmp _ lhs rhs => varsInOperand values lhs ++ varsInOperand values rhs
  | .arith _ out args => (out :: args).filterMap token?
  | .inn lhs vs => (lhs :: if values then vs else []).filterMap token?
  | .not branches => varsInBranches values branches

def varsInOperand (values : Bool) : Operand → List String
  | .term v => [v].filterMap token?
  | .aggregate _ target filter => varsInAtoms values filter ++ target.toList.filterMap token?

def varsInAtoms (values : Bool) : List Atom → List String
  | [] => []
  | a :: as => varsInAtom values a ++ varsInAtoms values as

def varsInBranches (values : Bool) : List (List Atom) → List String
  | [] => []
  | b :: bs => varsInAtoms values b ++ varsInBranches values bs

end

def varsInCall (vars : List String) : List String :=
  (vars.map fun v => (.leaf (.str v) : Datum)).filterMap token?

def Gate.vars : Gate → List String
  | .probability _ => []
  | .arm _ keyVariables => varsInCall keyVariables

/-- The variables of each clause, in the order of the clauses; like those of an atom, with the values
or without. -/
def RuleSpec.scopes (rule : RuleSpec) : List (Bool → List String) :=
  rule.choice.toList.map (fun c values =>
      c.arms.flatMap (fun _ => varsInCall c.domainKeyVariables) ++ varsInAtoms values c.domainBody) ++
    (rule.branches.map (fun b values =>
        varsInCall rule.queryVars ++ varsInAtoms values b.body ++ b.gate.vars) ++
      (rule.branches.map (fun _ _ => varsInCall rule.queryVars) ++ [fun _ => varsInCall rule.queryVars]))

/-! ## Names -/

theorem toProblogVar_ne_freshName (x pfx : String) (id : Nat) : toProblogVar x ≠ freshName pfx id := by
  intro h
  have hhead := congrArg (fun s : String => s.toList.head?) h
  simp only [toProblogVar, freshName, String.toList_ofList, String.toList_append, List.cons_append,
    List.head?_cons] at hhead
  exact absurd hhead (by decide)

/-- What is written for a character of a name. -/
def written (c : Char) : Char := (if isIdent c then c else '_').toUpper

/-- The same letter or digit, but for case, or no letter or digit both. -/
def SameIdent (c d : Char) : Prop :=
  isIdent c = isIdent d ∧ (isIdent c = true → c.toUpper = d.toUpper)

/-- A name from its first letter or digit to its last; `v` if it has none. -/
def core (token : String) : List Char :=
  let name := ((token.toList.drop 1).dropWhile (!isIdent ·)).rdropWhile (!isIdent ·)
  if name = [] then ['v'] else name

/-- Two variables whose names differ only in case, in what stands for the characters between letters
and digits, and at their ends. -/
def Alike (x y : String) : Prop := List.Forall₂ SameIdent (core x) (core y)

theorem written_eq_iff {c d : Char} : written c = written d ↔ SameIdent c d := by
  have hupper : ∀ c : Char, isIdent c = true → c.toUpper ≠ '_' := by
    intro c hc
    have hsmall : c.toNat < 128 := by
      simp only [isIdent, Bool.and_eq_true, decide_eq_true_eq] at hc
      exact hc.1
    have hall : ∀ n : Fin 128, isIdent (Char.ofNat n) = true → (Char.ofNat n).toUpper ≠ '_' := by
      decide
    have h := hall ⟨c.toNat, hsmall⟩
    simp only [Char.ofNat_toNat] at h
    exact h hc
  have hunder : Char.toUpper '_' = '_' := by decide
  unfold written SameIdent
  cases hc : isIdent c <;> cases hd : isIdent d
  · simp
  · simpa [hunder] using (hupper d hd).symm
  · simpa [hunder] using hupper c hc
  · simp

theorem toProblogVar_eq_iff {x y : String} : toProblogVar x = toProblogVar y ↔ Alike x y := by
  have hident : ∀ token : String, (identOr ['v'] (token.toList.drop 1)).map Char.toUpper =
      (core token).map written := by
    intro token
    have hpred : ((fun c => decide (c = '_')) ∘ fun c => if isIdent c then c else '_') =
        fun c => !isIdent c := by
      funext c
      have hnot : isIdent '_' = false := by decide
      cases hc : isIdent c
      · simp [hc]
      · have hne : c ≠ '_' := fun h => by simp [h, hnot] at hc
        simp [hc, hne]
    have hback : ∀ (p : Char → Bool) (f : Char → Char) (cs : List Char),
        (cs.map f).rdropWhile p = (cs.rdropWhile (p ∘ f)).map f := by
      intro p f cs
      simp only [List.rdropWhile, ← List.map_reverse, List.dropWhile_map]
    unfold identOr core
    simp only [List.dropWhile_map, hback, hpred, List.map_eq_nil_iff]
    split
    next =>
      simp only [List.map_cons, List.map_nil]
      decide
    next =>
      rw [List.map_map]
      rfl
  simp only [toProblogVar, hident, String.ofList_inj, List.cons.injEq, true_and]
  rw [← List.forall₂_eq_eq_eq, List.forall₂_map_left_iff, List.forall₂_map_right_iff]
  simp only [written_eq_iff]
  rfl

/-! ## Variables in a text -/

def Token.name? : Token → Option String
  | .var name => some name
  | .text _ | .literal _ => none

def varNames (tokens : List Token) : List String := tokens.filterMap Token.name?

@[simp] theorem varNames_nil : varNames [] = [] := rfl

@[simp] theorem varNames_text (s : String) (ts : List Token) : varNames (.text s :: ts) = varNames ts := rfl

@[simp] theorem varNames_literal (v : Datum) (ts : List Token) :
    varNames (.literal v :: ts) = varNames ts := rfl

@[simp] theorem varNames_var (n : String) (ts : List Token) :
    varNames (.var n :: ts) = n :: varNames ts := rfl

@[simp] theorem varNames_append (ts us : List Token) :
    varNames (ts ++ us) = varNames ts ++ varNames us := List.filterMap_append

theorem varNames_term (v : Datum) (ts : List Token) :
    varNames (toProblogTerm v :: ts) = ([v].filterMap token?).map toProblogVar ++ varNames ts := by
  unfold toProblogTerm
  cases h : token? v <;> simp [h]

theorem varNames_join (sep : String) (parts : List (List Token)) :
    varNames (join sep parts) = parts.flatMap varNames := by
  induction parts with
  | nil => rfl
  | cons p parts ih =>
    cases parts with
    | nil => simp [join]
    | cons q parts =>
      have hstep : join sep (p :: q :: parts) = p ++ .text sep :: join sep (q :: parts) := by
        simp [join]
      rw [hstep, varNames_append, varNames_text, ih]
      rfl

/-- The names in a text are those of `vars`, of `all` at most, and what the exporter makes up. -/
structure Names (names vars all : List String) : Prop where
  shown : ∀ x ∈ vars, toProblogVar x ∈ names
  only : ∀ n ∈ names, (∃ x ∈ all, n = toProblogVar x) ∨ ∃ pfx id, n = freshName pfx id

theorem Names.of_map (vars : List String) : Names (vars.map toProblogVar) vars vars where
  shown _ hx := List.mem_map_of_mem hx
  only _ hn := by
    obtain ⟨x, hx, rfl⟩ := List.mem_map.mp hn
    exact .inl ⟨x, hx, rfl⟩

theorem Names.fresh (pfx : String) (id : Nat) : Names [freshName pfx id] [] [] where
  shown _ hx := by cases hx
  only _ hn := .inr ⟨pfx, id, List.mem_singleton.mp hn⟩

theorem Names.append {ns ns' vs vs' as as' : List String} (h : Names ns vs as)
    (h' : Names ns' vs' as') : Names (ns ++ ns') (vs ++ vs') (as ++ as') where
  shown x hx := by
    rcases List.mem_append.mp hx with hx | hx
    · exact List.mem_append_left _ (h.shown x hx)
    · exact List.mem_append_right _ (h'.shown x hx)
  only n hn := by
    rcases List.mem_append.mp hn with hn | hn
    · exact (h.only n hn).imp_left (Exists.imp fun x hx => hx.imp_left (List.mem_append_left _))
    · exact (h'.only n hn).imp_left (Exists.imp fun x hx => hx.imp_left (List.mem_append_right _))

theorem Names.congr {ns ns' vs vs' as as' : List String} (h : Names ns vs as)
    (hn : ∀ n, n ∈ ns' ↔ n ∈ ns) (hv : ∀ x ∈ vs', x ∈ vs) (ha : ∀ x ∈ as, x ∈ as') :
    Names ns' vs' as' where
  shown x hx := (hn _).mpr (h.shown x (hv x hx))
  only n h' := (h.only n ((hn n).mp h')).imp_left (Exists.imp fun x hx => hx.imp_left (ha x))

theorem arithTerm_names {v : Datum} {t : Token} (h : toProblogArithTerm v = .ok t) :
    varNames [t] = ([v].filterMap token?).map toProblogVar := by
  unfold toProblogArithTerm at h
  split at h <;> cases h <;> simp_all

theorem arithTerms_names {vs : List Datum} {ts : List Token} (h : mapOk toProblogArithTerm vs = .ok ts) :
    varNames ts = (vs.filterMap token?).map toProblogVar := by
  induction vs generalizing ts with
  | nil =>
    cases h
    rfl
  | cons v vs ih =>
    obtain ⟨t, ht, h⟩ := bind_ok_iff.mp h
    obtain ⟨ts, hts, h⟩ := bind_ok_iff.mp h
    cases h
    have hsplit : varNames (t :: ts) = varNames [t] ++ varNames ts := varNames_append [t] ts
    rw [hsplit, arithTerm_names ht, ih hts, ← List.map_append, ← List.filterMap_append]
    rfl

theorem aggregateGoals_names (i j : Nat) (ctx : CompileContext) {kind : Rules.AggKind}
    {target goal : List Token} {tv vs as : List String} (ht : varNames target = tv.map toProblogVar)
    (hcount : kind = .count → tv = []) (hg : Names (varNames goal) vs as) :
    Names ((aggregateGoals kind target goal (.var (freshName "List" i)) (.var (freshName "Result" j))
      ctx).1.flatMap varNames) (vs ++ tv) (as ++ tv) := by
  have hmade := (Names.fresh "List" i).append (Names.fresh "Result" j)
  have hbase := (hg.append (Names.of_map tv)).append hmade
  have hmean := hbase.append ((Names.fresh "Sum" ctx.nextId).append (Names.fresh "Count" (ctx.nextId + 1)))
  simp only [List.append_nil] at hbase hmean
  cases kind with
  | count =>
    obtain rfl := hcount rfl
    refine hbase.congr (fun n => ?_) (fun _ h => h) (fun _ h => h)
    simp [aggregateGoals]
  | sum | min | max =>
    refine hbase.congr (fun n => ?_) (fun _ h => h) (fun _ h => h)
    simp [aggregateGoals, ht]
    grind
  | mean =>
    refine hmean.congr (fun n => ?_) (fun _ h => h) (fun _ h => h)
    simp [aggregateGoals, ht, CompileContext.fresh]
    grind

mutual

theorem compileAtom_names : ∀ (a : Atom) {ctx ctx' : CompileContext} {ts : List Token},
    compileAtom ctx a = .ok (ts, ctx') → Names (varNames ts) (varsInAtom false a) (varsInAtom true a)
  | .pred predId terms, ctx, ctx', ts, h => by
    unfold compileAtom at h
    rw [demand, bind_unit_ok_iff] at h
    obtain ⟨-, h⟩ := h
    have hmap := Names.of_map (terms.filterMap token?)
    split at h <;> cases h
    all_goals simpa [varNames_term, varsInAtom, ← List.map_append, ← List.filterMap_append] using hmap
  | .cmp op lhs rhs, ctx, ctx', ts, h => by
    rw [compileAtom] at h
    obtain ⟨⟨lgoals, l, ctx₁⟩, hl, h⟩ := bind_ok_iff.mp h
    obtain ⟨⟨rgoals, r, ctx₂⟩, hr, h⟩ := bind_ok_iff.mp h
    cases h
    refine ((compileCmpOperand_names lhs hl).append (compileCmpOperand_names rhs hr)).congr
      (fun n => ?_) (fun _ h => h) (fun _ h => h)
    have hlast : varNames [l, .text s!" {sign op} ", r] = varNames [l] ++ varNames [r] :=
      varNames_append [l] [r]
    simp [varNames_join, hlast]
    grind
  | .arith op out args, ctx, ctx', ts, h => by
    rw [compileAtom] at h
    obtain ⟨o, ho, h⟩ := bind_ok_iff.mp h
    obtain ⟨terms, hterms, h⟩ := bind_ok_iff.mp h
    have hout : varNames [o] = ([out].filterMap token?).map toProblogVar := by
      unfold toProblogArithOutput at ho
      cases htoken : token? out <;> simp only [htoken, reduceCtorEq, Except.ok.injEq] at ho
      simp [← ho, htoken]
    have hmap := Names.of_map ((out :: args).filterMap token?)
    have hsplit : ((out :: args).filterMap token?).map toProblogVar = varNames (o :: terms) := by
      rw [show o :: terms = [o] ++ terms from rfl, varNames_append, hout, arithTerms_names hterms,
        ← List.map_append, ← List.filterMap_append]
      rfl
    rw [hsplit] at hmap
    split at h <;> cases h <;> exact hmap
  | .inn lhs values, ctx, ctx', ts, h => by
    rw [compileAtom, demand, bind_unit_ok_iff, require_ok_iff] at h
    obtain ⟨hne, h⟩ := h
    cases h
    cases values with
    | nil => cases hne
    | cons v vs =>
      refine (Names.of_map ((lhs :: v :: vs).filterMap token?)).congr (fun n => ?_) (fun x hx => ?_)
        (fun _ h => h)
      · simp [varNames_join, List.flatMap_map, varNames_term]
        grind
      · have hx' : x ∈ [lhs].filterMap token? := hx
        simp at hx' ⊢
        exact .inl hx'
  | .not branches, ctx, ctx', ts, h => by
    rw [compileAtom, demand, bind_unit_ok_iff] at h
    obtain ⟨-, h⟩ := h
    obtain ⟨⟨terms, ctx₁⟩, hterms, h⟩ := bind_ok_iff.mp h
    cases h
    have hnames := compileBranches_names branches hterms
    refine hnames.congr (fun n => ?_) (fun _ h => h) (fun _ h => h)
    split
    · simp
    · simp [varNames_join, List.flatMap_map]

theorem compileCmpOperand_names : ∀ (o : Operand) {ctx ctx' : CompileContext} {arith : Bool}
    {goals : List (List Token)} {t : Token}, compileCmpOperand ctx arith o = .ok (goals, t, ctx') →
      Names (goals.flatMap varNames ++ varNames [t]) (varsInOperand false o) (varsInOperand true o)
  | .term v, ctx, ctx', arith, goals, t, h => by
    rw [compileCmpOperand] at h
    have hnames : goals = [] ∧ varNames [t] = ([v].filterMap token?).map toProblogVar := by
      cases arith with
      | true =>
        obtain ⟨t, ht, h⟩ := bind_ok_iff.mp h
        cases h
        exact ⟨rfl, arithTerm_names ht⟩
      | false =>
        cases h
        exact ⟨rfl, by simpa using varNames_term v []⟩
    rw [hnames.1, hnames.2, List.flatMap_nil, List.nil_append]
    exact Names.of_map _
  | .aggregate kind target filter, ctx, ctx', arith, goals, t, h => by
    rw [compileCmpOperand, bind_unit_ok_iff] at h
    obtain ⟨hshape, h⟩ := h
    obtain ⟨⟨filterGoals, ctx₁⟩, hfilter, h⟩ := bind_ok_iff.mp h
    obtain ⟨target', htarget, h⟩ := bind_ok_iff.mp h
    cases h
    have hcount : kind = .count → target.toList.filterMap token? = [] := by
      rintro rfl
      unfold validateAggregateShape demand at hshape
      rw [if_pos rfl, bind_unit_ok_iff, require_ok_iff, Option.isNone_iff_eq_none] at hshape
      rw [hshape.1]
      rfl
    have hgoal := compileAtoms_names filter hfilter
    rw [← varNames_join ", "] at hgoal
    have hnames := aggregateGoals_names ctx.nextId (ctx.nextId + 1) ctx₁ (arithTerms_names htarget)
      hcount hgoal
    have hall := hnames.append (Names.fresh "Result" (ctx.nextId + 1))
    simp only [List.append_nil] at hall
    exact hall

theorem compileAtoms_names : ∀ (as : List Atom) {ctx ctx' : CompileContext}
    {goals : List (List Token)}, compileAtoms ctx as = .ok (goals, ctx') →
      Names (goals.flatMap varNames) (varsInAtoms false as) (varsInAtoms true as)
  | [], ctx, ctx', goals, h => by
    cases h
    exact Names.of_map []
  | a :: as, ctx, ctx', goals, h => by
    rw [compileAtoms] at h
    obtain ⟨⟨goal, ctx₁⟩, hgoal, h⟩ := bind_ok_iff.mp h
    obtain ⟨⟨goals, ctx₂⟩, hgoals, h⟩ := bind_ok_iff.mp h
    cases h
    exact (compileAtom_names a hgoal).append (compileAtoms_names as hgoals)

theorem compileBranches_names : ∀ (bs : List (List Atom)) {ctx ctx' : CompileContext}
    {terms : List (List Token)}, compileBranches ctx bs = .ok (terms, ctx') →
      Names (terms.flatMap varNames) (varsInBranches false bs) (varsInBranches true bs)
  | [], ctx, ctx', terms, h => by
    cases h
    exact Names.of_map []
  | b :: bs, ctx, ctx', terms, h => by
    rw [compileBranches, demand, bind_unit_ok_iff] at h
    obtain ⟨-, h⟩ := h
    obtain ⟨⟨goals, ctx₁⟩, hgoals, h⟩ := bind_ok_iff.mp h
    obtain ⟨⟨terms, ctx₂⟩, hterms, h⟩ := bind_ok_iff.mp h
    cases h
    rw [List.flatMap_cons, varNames_join]
    exact (compileAtoms_names b hgoals).append (compileBranches_names bs hterms)

end

theorem compileBody_names {body : List Atom} {ctx ctx' : CompileContext} {ts : List Token}
    (h : compileBody ctx body = .ok (ts, ctx')) :
    Names (varNames ts) (varsInAtoms false body) (varsInAtoms true body) := by
  rw [compileBody, demand, bind_unit_ok_iff] at h
  obtain ⟨-, h⟩ := h
  obtain ⟨⟨goals, ctx₁⟩, hgoals, h⟩ := bind_ok_iff.mp h
  cases h
  rw [varNames_join]
  exact compileAtoms_names body hgoals

theorem predicateCall_names (name : String) (vars : List String) :
    varNames (predicateCall name vars) = (varsInCall vars).map toProblogVar := by
  have hterms : (vars.map fun v => [toProblogTerm (.leaf (.str v))]).flatMap varNames =
      (varsInCall vars).map toProblogVar := by
    induction vars with
    | nil => rfl
    | cons v vs ih =>
      rw [List.map_cons, List.flatMap_cons, ih, varNames_term, varNames_nil, List.append_nil,
        ← List.map_append]
      unfold varsInCall
      rw [← List.filterMap_append]
      rfl
  unfold predicateCall
  split
  next h =>
    subst h
    rfl
  next => simp [varNames_join, hterms]

/-! ## Variables of a rule -/

theorem branchClause_names {body : List Token} {vs as : List String} (h : Names (varNames body) vs as)
    (queryVars : List String) (idx : Nat) (gate : Gate) :
    Names (varNames (branchClause queryVars idx body gate)) (varsInCall queryVars ++ vs ++ gate.vars)
      (varsInCall queryVars ++ as ++ gate.vars) := by
  have hnames := ((Names.of_map (varsInCall queryVars)).append h).append (Names.of_map gate.vars)
  cases gate with
  | probability text => simpa [branchClause, branchHead, predicateCall_names, Gate.vars] using hnames
  | arm predicate keyVariables =>
    simpa [branchClause, branchHead, predicateCall_names, Gate.vars] using hnames

theorem choiceClause_names {domain : List Token} {vs as : List String}
    (h : Names (varNames domain) vs as) (c : WeightedChoice) :
    Names (varNames (choiceClause c domain))
      (c.arms.flatMap (fun _ => varsInCall c.domainKeyVariables) ++ vs)
      (c.arms.flatMap (fun _ => varsInCall c.domainKeyVariables) ++ as) := by
  have hnames := (Names.of_map (c.arms.flatMap fun _ => varsInCall c.domainKeyVariables)).append h
  simpa [choiceClause, varNames_join, List.flatMap_map, List.map_flatMap, predicateCall_names]
    using hnames

/-- A clause has the variables of its scope. -/
def Written (scope : Bool → List String) (clause : List Token) : Prop :=
  Names (varNames clause) (scope false) (scope true)

theorem answerClause_written (queryVars : List String) (idx : Nat) :
    Written (fun _ => varsInCall queryVars) (answerClause queryVars idx) := by
  refine (Names.of_map (varsInCall queryVars)).congr (fun n => ?_) (fun _ h => h) (fun _ h => h)
  simp [answerClause, branchHead, predicateCall_names]

theorem branchClauses_written {queryVars : List String} {bs : List Branch} {idx : Nat}
    {ctx ctx' : CompileContext} {clauses : List (List Token)}
    (h : branchClauses queryVars idx ctx bs = .ok (clauses, ctx')) :
    List.Forall₂ Written (bs.map fun b values =>
      varsInCall queryVars ++ varsInAtoms values b.body ++ b.gate.vars) clauses := by
  induction bs generalizing idx ctx clauses with
  | nil =>
    cases h
    exact .nil
  | cons b bs ih =>
    obtain ⟨⟨body, ctx₁⟩, hbody, h⟩ := bind_ok_iff.mp h
    obtain ⟨⟨rest, ctx₂⟩, hrest, h⟩ := bind_ok_iff.mp h
    cases h
    exact .cons (branchClause_names (compileBody_names hbody) ..) (ih hrest)

theorem exportRule_written {rule : RuleSpec} {clauses : List (List Token)}
    (h : exportRule rule = .ok clauses) : List.Forall₂ Written rule.scopes clauses := by
  obtain ⟨⟨branches, ctx⟩, hbranches, h⟩ := bind_ok_iff.mp h
  obtain ⟨choice, hchoice, h⟩ := bind_ok_iff.mp h
  cases h
  refine List.rel_append ?_ (List.rel_append (branchClauses_written hbranches)
    (List.rel_append ?_ (.cons ?_ .nil)))
  · cases hc : rule.choice with
    | none =>
      rw [hc] at hchoice
      cases hchoice
      exact .nil
    | some c =>
      rw [hc] at hchoice
      obtain ⟨clause, hclause, h⟩ := bind_ok_iff.mp hchoice
      obtain ⟨⟨domain, ctx₁⟩, hdomain, hclause⟩ := bind_ok_iff.mp hclause
      cases hclause
      cases h
      exact .cons (choiceClause_names (compileBody_names hdomain) c) .nil
  · rw [List.forall₂_map_left_iff, List.forall₂_map_right_iff, List.forall₂_iff_zip]
    exact ⟨List.length_range.symm, fun _ => answerClause_written ..⟩
  · unfold Written
    simpa [predicateCall_names] using Names.of_map (varsInCall rule.queryVars)

/-- No two variables of a scope become one in its clause, nor one of them a variable that is made up. -/
structure Apart (scope : Bool → List String) (clause : List Token) : Prop where
  written : Written scope clause
  distinct : ∀ x ∈ scope false, ∀ y ∈ scope false, toProblogVar x = toProblogVar y → x = y
  made : ∀ x ∈ scope false, ∀ pfx id, toProblogVar x ≠ freshName pfx id

/-- **The variables are kept apart exactly if no two of a clause are alike.** -/
theorem apart_iff {rule : RuleSpec} {clauses : List (List Token)} (h : exportRule rule = .ok clauses) :
    List.Forall₂ Apart rule.scopes clauses ↔
      ∀ scope ∈ rule.scopes, ∀ x ∈ scope false, ∀ y ∈ scope false, Alike x y → x = y := by
  have hsplit : Apart = fun scope clause =>
      (∀ x ∈ scope false, ∀ y ∈ scope false, Alike x y → x = y) ∧ Written scope clause := by
    funext scope clause
    refine propext ⟨fun h => ⟨fun x hx y hy ha => ?_, h.written⟩, fun h => ⟨h.2, ?_, ?_⟩⟩
    · exact h.distinct x hx y hy (toProblogVar_eq_iff.mpr ha)
    · exact fun x hx y hy he => h.1 x hx y hy (toProblogVar_eq_iff.mp he)
    · exact fun x _ pfx id => toProblogVar_ne_freshName x pfx id
  rw [hsplit, List.forall₂_and_left]
  exact and_iff_left (exportRule_written h)

/-- Two variables that differ in case, in one branch. -/
def upperCase : RuleSpec where
  branches := [⟨[.pred "p" [.leaf (.str "$a"), .leaf (.str "$A")]], .probability "1"⟩]
  queryVars := ["$a", "$A"]
  choice := none

/-- A join of two facts over other variables. -/
def friends : RuleSpec where
  branches := [⟨[.pred "p" [.leaf (.str "$a"), .leaf (.str "$b")],
    .pred "q" [.leaf (.str "$b"), .leaf (.str "$c")]], .probability "1"⟩]
  queryVars := ["$a", "$c"]
  choice := none

theorem apart_iff_friends : ∃ clauses, exportRule friends = .ok clauses ∧
    (List.Forall₂ Apart friends.scopes clauses ↔
      ∀ scope ∈ friends.scopes, ∀ x ∈ scope false, ∀ y ∈ scope false, Alike x y → x = y) :=
  ⟨_, rfl, apart_iff rfl⟩

/-- The exporter takes the rule, and its variables become one. -/
theorem upperCase_not_apart : ∃ clauses, exportRule upperCase = .ok clauses ∧
    ¬ List.Forall₂ Apart upperCase.scopes clauses := by
  refine ⟨_, rfl, ?_⟩
  rintro (_ | ⟨hapart, _⟩)
  exact absurd (hapart.distinct "$a" (by decide) "$A" (by decide) (by decide)) (by decide)

end FactGraph.Problog
