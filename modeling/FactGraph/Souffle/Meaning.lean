import FactGraph.Souffle.FactRows

/-!
# What the view program derives

The stratified least model of the generated rules over the exported facts of a ledger, relation by
relation. A rule reads relations of lower strata only, so each is determined by the ones below it:
`active` by the facts, `cand` by `active`, `max_seq` by `cand`, and so on up to the views
(`view_iff`). `better_asrt` is empty: two claims never have one sequence. The generator writes it all
the same, since it does not know that; so `chosen_asrt` is stated without it.

The strata are those of the rules and not of the data: negation occurs in `active` (of `revokes`) and
in `chosen_asrt` (of `better_asrt`), the one aggregate in `max_seq` (of `cand`), and no relation depends
on itself. This is why the least model can be read off stratum by stratum, and why no lemma below needs
an induction over derivations.

Several predicates may share an engine name, and then one relation has the rules of all of them. The
lemmas therefore ask of a predicate that it owns its name, and of the others nothing.
-/

namespace FactGraph.Souffle

open Check Datalog Store View
open Protocol hiding Term
open Latest

/-! ## The program -/

/-- The rules of a list of predicates, with the rule of `active`. -/
def program (witnesses : Bool) (specs : List ViewSpec) : List ViewRule :=
  activeRule :: specs.flatMap (·.rules witnesses)

/-- The stratum of a relation. -/
def stratum : Rel → Nat
  | .claim | .claimSeq | .claimArg | .revokes => 0
  | .active => 1
  | .cand _ => 2
  | .maxSeq _ => 3
  | .better _ => 4
  | .chosen _ => 5
  | .view _ | .witness _ => 6

/-- The predicate a relation belongs to. -/
def Rel.engine? : Rel → Option String
  | .claim | .claimSeq | .claimArg | .revokes | .active => none
  | .view engine | .witness engine | .cand engine | .maxSeq engine | .better engine
  | .chosen engine => some engine

theorem ViewSpec.mem_outputRules {s : ViewSpec} {w : Bool} {body : List (Literal Rel Var Cell)}
    {rule : ViewRule} (h : rule ∈ s.outputRules w body) :
    rule.body = body ∧ (rule.rel = .witness s.engine ∨
      rule.rel = .view s.engine ∧ rule.args = headArgs (.e :: s.valueVars)) := by
  unfold outputRules at h
  rcases List.mem_cons.mp h with rfl | h
  · exact ⟨rfl, .inr ⟨rfl, rfl⟩⟩
  · cases w with
    | false => simp at h
    | true =>
      simp only [if_true, List.mem_singleton] at h
      subst h
      exact ⟨rfl, .inl rfl⟩

/-- The rules of a predicate. -/
theorem ViewSpec.mem_rules {s : ViewSpec} {w : Bool} {rule : ViewRule} (h : rule ∈ s.rules w) :
    s.multi = true ∧ rule ∈ s.multiRules w ∨
      s.multi = false ∧ (rule = s.candRule ∨ rule = s.maxSeqRule ∨ rule = s.betterRule ∨
        rule = s.chosenRule ∨ rule ∈ s.outputRules w
          (.pos (atomOf (.chosen s.engine) (s.keyVars ++ [.a])) :: s.outputArgs)) := by
  unfold rules at h
  cases hm : s.multi with
  | true =>
    rw [hm, if_pos rfl] at h
    exact .inl ⟨rfl, h⟩
  | false =>
    rw [hm, if_neg (by simp)] at h
    unfold singleRules at h
    simp only [List.cons_append, List.nil_append, List.mem_cons] at h
    exact .inr ⟨rfl, h⟩

/-- A rule of a predicate defines one of its relations. -/
theorem ViewSpec.engine_of_mem {s : ViewSpec} {w : Bool} {rule : ViewRule} (h : rule ∈ s.rules w) :
    rule.rel.engine? = some s.engine := by
  rcases s.mem_rules h with ⟨_, h⟩ | ⟨_, rfl | rfl | rfl | rfl | h⟩
  · rcases (s.mem_outputRules h).2 with hrel | ⟨hrel, _⟩ <;> rw [hrel] <;> rfl
  · rfl
  · rfl
  · rfl
  · rfl
  · rcases (s.mem_outputRules h).2 with hrel | ⟨hrel, _⟩ <;> rw [hrel] <;> rfl

theorem ViewSpec.below_outputArgs {s : ViewSpec} {n : Nat} :
    ∀ lit ∈ s.outputArgs, lit.Below stratum n := by
  intro lit hlit
  obtain ⟨i, _, rfl⟩ := List.mem_map.mp hlit
  exact Nat.zero_le n

/-- The output rules read the strata below them. -/
theorem ViewSpec.below_outputRules {s : ViewSpec} {w : Bool} {body : List (Literal Rel Var Cell)}
    {rule : ViewRule} (h : rule ∈ s.outputRules w body) (hbody : ∀ lit ∈ body, lit.Below stratum 6) :
    ∀ lit ∈ rule.body, lit.Below stratum (stratum rule.rel) := by
  obtain ⟨heq, hrel⟩ := s.mem_outputRules h
  have hstratum : stratum rule.rel = 6 := by
    rcases hrel with hrel | ⟨hrel, _⟩ <;> rw [hrel] <;> rfl
  rw [heq, hstratum]
  exact hbody

/-- **The program is stratified.** -/
theorem stratified_program (w : Bool) (specs : List ViewSpec) :
    Stratified (program w specs) stratum := by
  intro rule hrule
  rcases List.mem_cons.mp hrule with rfl | hrule
  · simp [activeRule, Literal.Below, stratum]
  obtain ⟨s, _, hrule⟩ := List.mem_flatMap.mp hrule
  rcases s.mem_rules hrule with ⟨_, hrule⟩ | ⟨_, rfl | rfl | rfl | rfl | hrule⟩
  · apply ViewSpec.below_outputRules hrule
    intro lit hlit
    simp only [List.mem_cons] at hlit
    rcases hlit with rfl | rfl | hlit
    · simp [claimOf, Literal.Below, stratum]
    · simp [atomOf, Literal.Below, stratum]
    · exact ViewSpec.below_outputArgs lit hlit
  · intro lit hlit
    simp only [ViewSpec.candRule, List.mem_cons, List.mem_map] at hlit
    rw [show stratum s.candRule.rel = 2 from rfl]
    rcases hlit with rfl | rfl | rfl | ⟨p, _, rfl⟩
    all_goals simp [claimOf, claimArgAt, atomOf, Literal.Below, stratum]
  · simp [ViewSpec.maxSeqRule, Literal.Below, stratum]
  · simp [ViewSpec.betterRule, atomOf, Literal.Below, stratum]
  · simp [ViewSpec.chosenRule, atomOf, Literal.Below, stratum]
  · apply ViewSpec.below_outputRules hrule
    intro lit hlit
    rcases List.mem_cons.mp hlit with rfl | hlit
    · simp [atomOf, Literal.Below, stratum]
    · exact ViewSpec.below_outputArgs lit hlit

/-! ## Matching -/

/-- Arguments that are all variables match the tuple of their values. -/
theorem matches_varArgs {σ : Var → Cell} {vars : List Var} {t : List Cell} :
    Matches σ (varArgs vars) t ↔ t = vars.map σ := by
  induction vars generalizing t with
  | nil => simp [varArgs]
  | cons v vars ih =>
    rw [show varArgs (v :: vars) = some (.var v) :: varArgs vars from rfl]
    cases t with
    | nil => simp [Datalog.Matches]
    | cons x t => simp [ih, eq_comm]

theorem eval_headArgs {σ : Var → Cell} {vars : List Var} :
    (headArgs vars).map (·.eval σ) = vars.map σ := by
  unfold headArgs
  rw [List.map_map]
  rfl

section Program

variable {l : Ledger} {host : Host} {rows : FactRows} {w : Bool} {specs : List ViewSpec}

/-- What the program derives. -/
def derived (rows : FactRows) (w : Bool) (specs : List ViewSpec) : Interp Rel Cell :=
  Model (program w specs) rows.load stratum

/-- What a rule of the program derives. -/
theorem derived_iff {r : Rel} {t : List Cell} :
    derived rows w specs r t ↔ rows.load r t ∨
      ∃ rule ∈ program w specs, rule.rel = r ∧ ∃ σ, rule.args.map (·.eval σ) = t ∧
        ∀ lit ∈ rule.body, lit.Holds (derived rows w specs) σ :=
  Model.iff_rule (stratified_program w specs)

/-- The relations of the facts hold the facts. -/
theorem derived_fact {r : Rel} (hengine : r.engine? = none) (hactive : r ≠ .active) {t : List Cell} :
    derived rows w specs r t ↔ rows.load r t := by
  rw [derived_iff]
  constructor
  · rintro (h | ⟨rule, hrule, rfl, _⟩)
    · exact h
    · rcases List.mem_cons.mp hrule with rfl | hrule
      · exact absurd rfl hactive
      · obtain ⟨s, _, hrule⟩ := List.mem_flatMap.mp hrule
        rw [s.engine_of_mem hrule] at hengine
        cases hengine
  · exact .inl

variable (hrows : buildFactRows host l = .ok rows)

include hrows

/-- `claim(A,"{pred_id}",E,_)` binds `A` and `E` to a claim of the predicate. -/
theorem holds_claimOf {σ : Var → Cell} {predId : String} :
    (claimOf predId).Holds (derived rows w specs) σ ↔ ∃ c ∈ l.indexes.claims,
      c.predId = predId ∧ σ .a = .symbol c.asrtId ∧ σ .e = .symbol c.eRef := by
  obtain ⟨digest, hdigest⟩ := load_claim hrows
  unfold claimOf Literal.Holds Atom.Holds
  simp only [derived_fact (r := .claim) rfl (by simp), hdigest]
  constructor
  · rintro ⟨t, ⟨c, hc, rfl⟩, hmatch⟩
    simp only [matches_var, matches_const, Cell.symbol.injEq] at hmatch
    obtain ⟨ha, hp, he, _⟩ := hmatch
    exact ⟨c, hc, hp.symm, ha, he⟩
  · rintro ⟨c, hc, rfl, ha, he⟩
    refine ⟨_, ⟨c, hc, rfl⟩, ?_⟩
    simp [ha, he]

variable (hl : l.Sound)

include hl

/-- `active` holds the ids of the unrevoked claims. -/
theorem derived_active {t : List Cell} :
    derived rows w specs .active t ↔ ∃ c ∈ l.indexes.claims,
      l.hasActiveRevocation c.asrtId = false ∧ t = [.symbol c.asrtId] := by
  obtain ⟨digest, hdigest⟩ := load_claim hrows
  have hbody : ∀ σ : Var → Cell, (∀ lit ∈ activeRule.body, lit.Holds (derived rows w specs) σ) ↔
      ∃ c ∈ l.indexes.claims, l.hasActiveRevocation c.asrtId = false ∧
        σ .a = .symbol c.asrtId := by
    intro σ
    simp only [activeRule, List.mem_cons, List.not_mem_nil, or_false, forall_eq_or_imp, forall_eq,
      Literal.Holds, Atom.Holds, derived_fact (r := .claim) rfl (by simp), hdigest,
      derived_fact (r := .revokes) rfl (by simp), load_revokes hrows]
    constructor
    · rintro ⟨⟨t, ⟨c, hc, rfl⟩, hmatch⟩, hnone⟩
      simp only [matches_var] at hmatch
      refine ⟨c, hc, ?_, hmatch.1⟩
      rw [← Bool.not_eq_true, hl.hasActiveRevocation_iff]
      rintro ⟨r, hr, hid⟩
      exact hnone ⟨_, ⟨r, hr, rfl⟩, by simp [hmatch.1, hid]⟩
    · rintro ⟨c, hc, hactive, ha⟩
      refine ⟨⟨_, ⟨c, hc, rfl⟩, by simp [ha]⟩, ?_⟩
      rintro ⟨t, ⟨r, hr, rfl⟩, hmatch⟩
      simp only [matches_any, matches_var, ha, Cell.symbol.injEq] at hmatch
      have hrevoked := hl.hasActiveRevocation_iff.mpr ⟨r, hr, hmatch.1.symm⟩
      rw [hactive] at hrevoked
      cases hrevoked
  rw [derived_iff]
  constructor
  · rintro (h | ⟨rule, hrule, hrel, σ, rfl, hlits⟩)
    · exact absurd h id
    · rcases List.mem_cons.mp hrule with rfl | hrule
      · obtain ⟨c, hc, hactive, ha⟩ := (hbody σ).mp hlits
        exact ⟨c, hc, hactive, congrArg (fun x => [x]) ha⟩
      · obtain ⟨s, _, hrule⟩ := List.mem_flatMap.mp hrule
        have hengine := s.engine_of_mem hrule
        rw [hrel] at hengine
        cases hengine
  · rintro ⟨c, hc, hactive, rfl⟩
    refine .inr ⟨activeRule, List.mem_cons_self, rfl, fun _ => .symbol c.asrtId, rfl, ?_⟩
    exact (hbody _).mpr ⟨c, hc, hactive, rfl⟩

/-- The first two atoms of a rule over the claims of a predicate bind `A` and `E` to an active
one. -/
theorem holds_activeClaim {σ : Var → Cell} {predId : String} :
    (claimOf predId).Holds (derived rows w specs) σ ∧
        (Literal.pos (atomOf .active [.a])).Holds (derived rows w specs) σ ↔
      ∃ c ∈ activeOf l predId, σ .a = .symbol c.asrtId ∧ σ .e = .symbol c.eRef := by
  have hactive : (Literal.pos (atomOf .active [.a])).Holds (derived rows w specs) σ ↔
      ∃ c ∈ l.indexes.claims, l.hasActiveRevocation c.asrtId = false ∧
        σ .a = .symbol c.asrtId := by
    unfold Literal.Holds Atom.Holds atomOf
    simp only [derived_active hrows hl, matches_varArgs]
    constructor
    · rintro ⟨t, ⟨c, hc, hrevoked, rfl⟩, hσ⟩
      exact ⟨c, hc, hrevoked, (List.cons.inj hσ).1.symm⟩
    · rintro ⟨c, hc, hrevoked, ha⟩
      exact ⟨_, ⟨c, hc, hrevoked, rfl⟩, by simp [ha]⟩
  rw [holds_claimOf hrows, hactive]
  constructor
  · rintro ⟨⟨c, hc, hp, ha, he⟩, d, _, hd, had⟩
    have hid : c.asrtId = d.asrtId := by
      rw [ha] at had
      exact Cell.symbol.inj had
    exact ⟨c, mem_activeOf.mpr ⟨hc, hp, hid ▸ hd⟩, ha, he⟩
  · rintro ⟨c, hc, ha, he⟩
    obtain ⟨hc, hp, hrevoked⟩ := mem_activeOf.mp hc
    exact ⟨⟨c, hc, hp, ha, he⟩, c, hc, hrevoked, ha⟩

/-- `claim_arg(A,"{idx}",value,tag)` binds `value` and `tag` to an argument of the claim. -/
theorem holds_claimArgAt {σ : Var → Cell} {c : Claim} (hc : c ∈ l.indexes.claims)
    (ha : σ .a = .symbol c.asrtId) {i : Nat} {value tag : Var} :
    (claimArgAt i value tag).Holds (derived rows w specs) σ ↔ ∃ row : ClaimArg,
      (argsOf c)[i]? = some row ∧ σ value = .symbol (symbolOf row.valAtom) ∧
        σ tag = .symbol row.tag := by
  unfold claimArgAt Literal.Holds Atom.Holds
  simp only [derived_fact (r := .claimArg) rfl (by simp), load_claimArg hl hrows]
  constructor
  · rintro ⟨t, ⟨d, hd, j, row, hrow, rfl⟩, hmatch⟩
    simp only [matches_var, matches_const, ha, Cell.symbol.injEq] at hmatch
    obtain ⟨hid, hidx, hvalue, htag, _⟩ := hmatch
    obtain rfl : c = d := (sequenced_of_sound hl).inj hc hd hid
    obtain rfl : i = j := Nat.repr_injective hidx
    exact ⟨row, hrow, hvalue, htag⟩
  · rintro ⟨row, hrow, hvalue, htag⟩
    refine ⟨_, ⟨c, hc, i, row, hrow, rfl⟩, ?_⟩
    simp [ha, hvalue, htag]

/-! ## Views -/

/-- The row of a claim in the view of its predicate. -/
def viewRow (s : ViewSpec) (c : Claim) : List Cell :=
  .symbol c.eRef :: ((texts c).take s.values).map .symbol

/-- The values of the dimensions of a claim, with its entity. -/
def keyTuple (s : ViewSpec) (c : Claim) : List Cell :=
  .symbol c.eRef :: s.dims.map fun j => .symbol ((texts c).getD j "")

/-- The claim has an argument for every dimension. -/
def HasDims (s : ViewSpec) (c : Claim) : Prop := ∀ j ∈ s.dims, j < (argsOf c).length

instance (s : ViewSpec) (c : Claim) : Decidable (HasDims s c) := by
  unfold HasDims
  infer_instance

/-- The values of the variables, with `A` and `B` at a claim. -/
def valuation (s : ViewSpec) (seq : Nat) (c : Claim) : Var → Cell
  | .a | .b => .symbol c.asrtId
  | .e => .symbol c.eRef
  | .seq | .inner => .number seq
  | .v i => .symbol ((texts c).getD i "")
  | .d i => .symbol ((texts c).getD (s.dims.getD i 0) "")
  | .tagOut i => .symbol ((tags c).getD i "")
  | .tagDim i => .symbol ((tags c).getD (s.dims.getD i 0) "")

omit hrows hl in
theorem getD_texts {c : Claim} {i : Nat} {row : ClaimArg} (h : (argsOf c)[i]? = some row) :
    (texts c).getD i "" = symbolOf row.valAtom := by
  unfold texts
  rw [List.getD_eq_getElem?_getD, List.getElem?_map, h]
  rfl

omit hrows hl in
theorem getD_tags {c : Claim} {i : Nat} {row : ClaimArg} (h : (argsOf c)[i]? = some row) :
    (tags c).getD i "" = row.tag := by
  unfold tags
  rw [List.getD_eq_getElem?_getD, List.getElem?_map, h]
  rfl

omit hrows hl in
/-- The dimension variables hold the texts of the dimensions. -/
theorem valuation_keyVars {s : ViewSpec} {n : Nat} {c : Claim} :
    s.keyVars.map (valuation s n c) = keyTuple s c := by
  unfold ViewSpec.keyVars keyTuple
  rw [List.map_cons]
  congr 1
  apply List.ext_getElem
  · simp [ViewSpec.dimVars]
  · intro i hi _
    have hlt : i < s.dims.length := by simpa [ViewSpec.dimVars] using hi
    simp [ViewSpec.dimVars, valuation, hlt]

omit hrows hl in
/-- The value variables hold the texts of the arguments. -/
theorem map_valueVars {s : ViewSpec} {σ : Var → Cell} {c : Claim}
    (h : ∀ i < s.values, ∃ row : ClaimArg, (argsOf c)[i]? = some row ∧
      σ (.v i) = .symbol (symbolOf row.valAtom)) :
    s.values ≤ (argsOf c).length ∧ s.valueVars.map σ = ((texts c).take s.values).map .symbol := by
  have hlen : s.values ≤ (argsOf c).length := by
    by_contra hlt
    obtain ⟨row, hrow, _⟩ := h (argsOf c).length (by omega)
    simp at hrow
  refine ⟨hlen, ?_⟩
  apply List.ext_getElem
  · simp [ViewSpec.valueVars, texts, hlen]
  · intro i hi _
    have hi : i < s.values := by simpa [ViewSpec.valueVars] using hi
    obtain ⟨row, hrow, hσ⟩ := h i hi
    obtain ⟨hlt, hget⟩ := List.getElem?_eq_some_iff.mp hrow
    simp [ViewSpec.valueVars, texts, hσ, hget]

/-- The `claim_arg` atoms of an output rule, at a claim. -/
theorem holds_outputArgs {s : ViewSpec} {σ : Var → Cell} {c : Claim} (hc : c ∈ l.indexes.claims)
    (ha : σ .a = .symbol c.asrtId) :
    (∀ lit ∈ s.outputArgs, lit.Holds (derived rows w specs) σ) ↔
      ∀ i < s.values, ∃ row : ClaimArg, (argsOf c)[i]? = some row ∧
        σ (.v i) = .symbol (symbolOf row.valAtom) ∧ σ (.tagOut i) = .symbol row.tag := by
  unfold ViewSpec.outputArgs
  simp only [List.mem_map, List.mem_range, forall_exists_index, and_imp, forall_apply_eq_imp_iff₂,
    holds_claimArgAt hrows hl hc ha]

/-- An output rule whose other atoms bind `A` and `E` to the claims of a list derives their rows. -/
theorem outputRule_iff {s : ViewSpec} {claims : List Claim} (start : List (Literal Rel Var Cell))
    (seq : Claim → Nat) (hclaims : claims ⊆ l.indexes.claims)
    (hbind : ∀ σ : Var → Cell, (∀ lit ∈ start, lit.Holds (derived rows w specs) σ) →
      ∃ c ∈ claims, σ .a = .symbol c.asrtId ∧ σ .e = .symbol c.eRef)
    (hstart : ∀ c ∈ claims, ∀ lit ∈ start,
      lit.Holds (derived rows w specs) (valuation s (seq c) c)) (t : List Cell) :
    (∃ σ : Var → Cell, (headArgs (.e :: s.valueVars)).map (·.eval σ) = t ∧
        ∀ lit ∈ start ++ s.outputArgs, lit.Holds (derived rows w specs) σ) ↔
      ∃ c ∈ claims, s.values ≤ (argsOf c).length ∧ t = viewRow s c := by
  constructor
  · rintro ⟨σ, rfl, hbody⟩
    obtain ⟨c, hc, ha, he⟩ := hbind σ fun lit h => hbody lit (List.mem_append_left _ h)
    have hargs := (holds_outputArgs hrows hl (hclaims hc) ha).mp
      fun lit h => hbody lit (List.mem_append_right _ h)
    obtain ⟨hlen, hmap⟩ := map_valueVars fun i hi =>
      (hargs i hi).imp fun _ h => ⟨h.1, h.2.1⟩
    refine ⟨c, hc, hlen, ?_⟩
    rw [eval_headArgs, List.map_cons, hmap, he]
    rfl
  · rintro ⟨c, hc, hlen, rfl⟩
    have hargs : ∀ i < s.values, ∃ row : ClaimArg, (argsOf c)[i]? = some row ∧
        valuation s (seq c) c (.v i) = .symbol (symbolOf row.valAtom) ∧
        valuation s (seq c) c (.tagOut i) = .symbol row.tag := by
      intro i hi
      have hlt : i < (argsOf c).length := by omega
      have hrow := List.getElem?_eq_getElem hlt
      exact ⟨_, hrow, congrArg Cell.symbol (getD_texts hrow),
        congrArg Cell.symbol (getD_tags hrow)⟩
    refine ⟨valuation s (seq c) c, ?_, ?_⟩
    · obtain ⟨_, hmap⟩ := map_valueVars fun i hi =>
        (hargs i hi).imp fun _ h => ⟨h.1, h.2.1⟩
      rw [eval_headArgs, List.map_cons, hmap]
      rfl
    · intro lit hlit
      rcases List.mem_append.mp hlit with h | h
      · exact hstart c hc lit h
      · exact (holds_outputArgs hrows hl (hclaims hc) rfl).mpr hargs lit h

omit hrows hl in
/-- What is derived for a relation of a predicate is derived by the predicate's own rules. -/
theorem derived_engine {s : ViewSpec} (hs : s ∈ specs)
    (hown : ∀ s' ∈ specs, s'.engine = s.engine → s' = s) {r : Rel}
    (hr : r.engine? = some s.engine) {t : List Cell} :
    derived rows w specs r t ↔ ∃ rule ∈ s.rules w, rule.rel = r ∧ ∃ σ,
      rule.args.map (·.eval σ) = t ∧ ∀ lit ∈ rule.body, lit.Holds (derived rows w specs) σ := by
  have hload : ¬ rows.load r t := by
    intro h
    cases r <;> first | exact h | cases hr
  rw [derived_iff, or_iff_right hload]
  constructor
  · rintro ⟨rule, hrule, hrel, hbody⟩
    rcases List.mem_cons.mp hrule with rfl | hrule
    · rw [← hrel] at hr
      cases hr
    · obtain ⟨s', hs', hrule⟩ := List.mem_flatMap.mp hrule
      have hengine := s'.engine_of_mem hrule
      rw [hrel, hr, Option.some.injEq] at hengine
      obtain rfl := hown s' hs' hengine.symm
      exact ⟨rule, hrule, hrel, hbody⟩
  · rintro ⟨rule, hrule, h⟩
    exact ⟨rule, List.mem_cons_of_mem _ (List.mem_flatMap.mpr ⟨s, hs, hrule⟩), h⟩

omit hrows hl in
/-- A relation that one rule of its predicate defines holds what the rule derives. -/
theorem derived_by_rule {s : ViewSpec} (hs : s ∈ specs)
    (hown : ∀ s' ∈ specs, s'.engine = s.engine → s' = s) (rule : ViewRule)
    (hrule : rule ∈ s.rules w) (honly : ∀ rule' ∈ s.rules w, rule'.rel = rule.rel → rule' = rule)
    {t : List Cell} :
    derived rows w specs rule.rel t ↔ ∃ σ, rule.args.map (·.eval σ) = t ∧
      ∀ lit ∈ rule.body, lit.Holds (derived rows w specs) σ := by
  rw [derived_engine hs hown (s.engine_of_mem hrule)]
  constructor
  · rintro ⟨rule', hrule', hrel, h⟩
    obtain rfl := honly rule' hrule' hrel
    exact h
  · exact fun h => ⟨rule, hrule, rfl, h⟩

omit hrows hl in
/-- The output rule is the only one of the view among the output rules. -/
theorem ViewSpec.eq_of_outputRules {s : ViewSpec} {body : List (Literal Rel Var Cell)}
    {rule : ViewRule} (h : rule ∈ s.outputRules w body) (hrel : rule.rel = .view s.engine) :
    rule = ⟨.view s.engine, headArgs (.e :: s.valueVars), body⟩ := by
  unfold outputRules at h
  rcases List.mem_cons.mp h with rfl | h
  · rfl
  · cases w with
    | false => simp at h
    | true =>
      simp only [if_true, List.mem_singleton] at h
      subst h
      cases hrel

/-- **The view of a multi-valued predicate** has the rows of its active claims. -/
theorem view_multi {s : ViewSpec} (hs : s ∈ specs)
    (hown : ∀ s' ∈ specs, s'.engine = s.engine → s' = s) (hm : s.multi = true) (t : List Cell) :
    derived rows w specs (.view s.engine) t ↔
      ∃ c ∈ activeOf l s.predId, s.values ≤ (argsOf c).length ∧ t = viewRow s c := by
  have hrules : s.rules w = s.multiRules w := by
    unfold ViewSpec.rules
    rw [if_pos hm]
  have hstart : ∀ σ : Var → Cell,
      (∀ lit ∈ [claimOf s.predId, .pos (atomOf .active [.a])],
        lit.Holds (derived rows w specs) σ) ↔
      ∃ c ∈ activeOf l s.predId, σ .a = .symbol c.asrtId ∧ σ .e = .symbol c.eRef := by
    intro σ
    rw [List.forall_mem_cons, List.forall_mem_singleton]
    exact holds_activeClaim hrows hl
  rw [← outputRule_iff hrows hl [claimOf s.predId, .pos (atomOf .active [.a])] (reads l).seq
    (fun c hc => (mem_activeOf.mp hc).1) (fun σ h => (hstart σ).mp h)
    (fun c hc => (hstart _).mpr ⟨c, hc, rfl, rfl⟩)]
  exact derived_by_rule hs hown ⟨.view s.engine, headArgs (.e :: s.valueVars), _⟩
    (by rw [hrules]; exact List.mem_cons_self)
    (fun rule' h hrel => s.eq_of_outputRules (hrules ▸ h) hrel)

/-! ## Candidates -/

omit hrows hl in
theorem ViewSpec.rules_single {s : ViewSpec} (hm : s.multi = false) :
    s.rules w = s.singleRules w := by
  unfold ViewSpec.rules
  rw [hm, if_neg (by simp)]

omit hrows hl in
/-- Of a single-valued predicate, every relation but the views has one rule. -/
theorem ViewSpec.eq_of_rel {s : ViewSpec} (hm : s.multi = false) {rule : ViewRule}
    (hrule : rule ∈ s.rules w) :
    (rule.rel = .cand s.engine → rule = s.candRule) ∧
      (rule.rel = .maxSeq s.engine → rule = s.maxSeqRule) ∧
      (rule.rel = .better s.engine → rule = s.betterRule) ∧
      (rule.rel = .chosen s.engine → rule = s.chosenRule) ∧
      (rule.rel = .view s.engine → rule = ⟨.view s.engine, headArgs (.e :: s.valueVars),
        .pos (atomOf (.chosen s.engine) (s.keyVars ++ [.a])) :: s.outputArgs⟩) := by
  rcases s.mem_rules hrule with ⟨hm', _⟩ | ⟨_, rfl | rfl | rfl | rfl | h⟩
  · rw [hm] at hm'
    cases hm'
  · simp [ViewSpec.candRule]
  · simp [ViewSpec.maxSeqRule]
  · simp [ViewSpec.betterRule]
  · simp [ViewSpec.chosenRule]
  · have hview := s.eq_of_outputRules h
    rcases (s.mem_outputRules h).2 with hrel | ⟨hrel, _⟩
    · simp [hrel]
    · simp [hview hrel]

/-- The active claims that have an argument for every dimension. -/
def candidates (l : Ledger) (s : ViewSpec) : List Claim :=
  (activeOf l s.predId).filter fun c => HasDims s c

/-- A row of `cand`. -/
def candTuple (l : Ledger) (s : ViewSpec) (c : Claim) : List Cell :=
  .symbol c.asrtId :: keyTuple s c ++ [.number ((reads l).seq c)]

omit hrows hl in
theorem mem_candidates {s : ViewSpec} {c : Claim} :
    c ∈ candidates l s ↔ c ∈ activeOf l s.predId ∧ HasDims s c := by
  simp [candidates]

omit hrows hl in
/-- The dimension variables hold the texts of the arguments. -/
theorem map_keyVars {s : ViewSpec} {σ : Var → Cell} {c : Claim} (he : σ .e = .symbol c.eRef)
    (h : ∀ j i, s.dims[i]? = some j → ∃ row : ClaimArg, (argsOf c)[j]? = some row ∧
      σ (.d i) = .symbol (symbolOf row.valAtom)) :
    HasDims s c ∧ s.keyVars.map σ = keyTuple s c := by
  constructor
  · intro j hj
    obtain ⟨i, hi⟩ := List.mem_iff_getElem?.mp hj
    obtain ⟨row, hrow, _⟩ := h j i hi
    exact (List.getElem?_eq_some_iff.mp hrow).1
  · unfold ViewSpec.keyVars keyTuple
    rw [List.map_cons, he]
    congr 1
    apply List.ext_getElem
    · simp [ViewSpec.dimVars]
    · intro i hi _
      have hlt : i < s.dims.length := by simpa [ViewSpec.dimVars] using hi
      obtain ⟨row, hrow, hσ⟩ := h _ i (List.getElem?_eq_getElem hlt)
      simp [ViewSpec.dimVars, hσ, ← getD_texts hrow]

/-- **`cand`** has a row for every candidate. -/
theorem derived_cand {s : ViewSpec} (hs : s ∈ specs)
    (hown : ∀ s' ∈ specs, s'.engine = s.engine → s' = s) (hm : s.multi = false) (t : List Cell) :
    derived rows w specs (.cand s.engine) t ↔ ∃ c ∈ candidates l s, t = candTuple l s c := by
  have hrule : s.candRule ∈ s.rules w := by
    rw [s.rules_single hm]
    exact List.mem_cons_self
  rw [show Rel.cand s.engine = s.candRule.rel from rfl, derived_by_rule hs hown s.candRule hrule
    fun rule' h hrel => (s.eq_of_rel hm h).1 hrel]
  -- the literals of the body, one by one
  have hseq : ∀ σ : Var → Cell, (Literal.pos (atomOf .claimSeq [.a, .seq])).Holds
      (derived rows w specs) σ ↔ ∃ c ∈ l.indexes.claims, σ .a = .symbol c.asrtId ∧
        σ .seq = .number ((reads l).seq c) := by
    intro σ
    unfold Literal.Holds Atom.Holds atomOf
    simp only [derived_fact (r := .claimSeq) rfl (by simp), load_claimSeq hl hrows,
      matches_varArgs]
    constructor
    · rintro ⟨t, ⟨c, hc, rfl⟩, hσ⟩
      simp only [List.map_cons, List.map_nil, List.cons.injEq, and_true] at hσ
      exact ⟨c, hc, hσ.1.symm, hσ.2.symm⟩
    · rintro ⟨c, hc, ha, hq⟩
      exact ⟨_, ⟨c, hc, rfl⟩, by simp [ha, hq]⟩
  have hdims : ∀ (σ : Var → Cell) (c : Claim), c ∈ l.indexes.claims → σ .a = .symbol c.asrtId →
      ((∀ lit ∈ s.dims.zipIdx.map fun p => claimArgAt p.1 (.d p.2) (.tagDim p.2),
        lit.Holds (derived rows w specs) σ) ↔ ∀ j i, s.dims[i]? = some j → ∃ row : ClaimArg,
          (argsOf c)[j]? = some row ∧ σ (.d i) = .symbol (symbolOf row.valAtom) ∧
            σ (.tagDim i) = .symbol row.tag) := by
    intro σ c hc ha
    constructor
    · intro h j i hj
      exact (holds_claimArgAt hrows hl hc ha).mp (h _ (List.mem_map.mpr
        ⟨(j, i), List.mk_mem_zipIdx_iff_getElem?.mpr hj, rfl⟩))
    · intro h lit hlit
      obtain ⟨⟨j, i⟩, hmem, rfl⟩ := List.mem_map.mp hlit
      exact (holds_claimArgAt hrows hl hc ha).mpr
        (h j i (List.mk_mem_zipIdx_iff_getElem?.mp hmem))
  constructor
  · rintro ⟨σ, rfl, hbody⟩
    simp only [ViewSpec.candRule, List.mem_cons, forall_eq_or_imp] at hbody
    obtain ⟨hclaim, hactive, hsequence, hargs⟩ := hbody
    obtain ⟨c, hc, ha, he⟩ := (holds_activeClaim hrows hl).mp ⟨hclaim, hactive⟩
    have hmem := (mem_activeOf.mp hc).1
    obtain ⟨d, hd, had, hq⟩ := (hseq σ).mp hsequence
    have hid : c.asrtId = d.asrtId := Cell.symbol.inj (ha.symm.trans had)
    obtain rfl : c = d := (sequenced_of_sound hl).inj hmem hd hid
    have hrows := (hdims σ c hmem ha).mp hargs
    obtain ⟨hhas, hkey⟩ := map_keyVars he fun j i hj =>
      (hrows j i hj).imp fun _ h => ⟨h.1, h.2.1⟩
    refine ⟨c, mem_candidates.mpr ⟨hc, hhas⟩, ?_⟩
    show (headArgs (.a :: s.keyVars ++ [.seq])).map (·.eval σ) = _
    rw [eval_headArgs, List.map_append, List.map_cons, hkey, ha, List.map_singleton, hq]
    rfl
  · rintro ⟨c, hc, rfl⟩
    obtain ⟨hc, hhas⟩ := mem_candidates.mp hc
    have hmem := (mem_activeOf.mp hc).1
    have hargs : ∀ j i, s.dims[i]? = some j → ∃ row : ClaimArg, (argsOf c)[j]? = some row ∧
        valuation s ((reads l).seq c) c (.d i) = .symbol (symbolOf row.valAtom) ∧
        valuation s ((reads l).seq c) c (.tagDim i) = .symbol row.tag := by
      intro j i hj
      have hlt : j < (argsOf c).length := hhas j (List.mem_of_getElem? hj)
      have hrow := List.getElem?_eq_getElem hlt
      have hgetD : s.dims.getD i 0 = j := by
        rw [List.getD_eq_getElem?_getD, hj]
        rfl
      refine ⟨_, hrow, ?_, ?_⟩
      · show Cell.symbol ((texts c).getD (s.dims.getD i 0) "") = _
        rw [hgetD, getD_texts hrow]
      · show Cell.symbol ((tags c).getD (s.dims.getD i 0) "") = _
        rw [hgetD, getD_tags hrow]
    -- the claim gives every variable its value
    refine ⟨valuation s ((reads l).seq c) c, ?_, ?_⟩
    · show (headArgs (.a :: s.keyVars ++ [.seq])).map (·.eval (valuation s ((reads l).seq c) c)) = _
      rw [eval_headArgs, List.map_append, List.map_cons, valuation_keyVars]
      rfl
    · simp only [ViewSpec.candRule, List.mem_cons, forall_eq_or_imp]
      have hclaim : (claimOf s.predId).Holds (derived rows w specs)
            (valuation s ((reads l).seq c) c) ∧
          (Literal.pos (atomOf .active [.a])).Holds (derived rows w specs)
            (valuation s ((reads l).seq c) c) :=
        (holds_activeClaim hrows hl).mpr ⟨c, hc, rfl, rfl⟩
      exact ⟨hclaim.1, hclaim.2, (hseq _).mpr ⟨c, hmem, rfl, rfl⟩, (hdims _ c hmem rfl).mpr hargs⟩

/-! ## The chosen claim of a group -/

omit hrows hl in
/-- The columns of a row of `cand`. -/
theorem candTuple_eq_iff {s : ViewSpec} {c : Claim} {σ : Var → Cell} {v : Var} :
    candTuple l s c = (v :: s.keyVars ++ [Var.seq]).map σ ↔ .symbol c.asrtId = σ v ∧
      keyTuple s c = s.keyVars.map σ ∧ .number ((reads l).seq c) = σ .seq := by
  unfold candTuple
  rw [List.map_append, List.map_cons, List.cons_append, List.cons_append, List.cons.injEq]
  apply and_congr_right
  intro _
  constructor
  · intro h
    obtain ⟨hkey, hseq⟩ := List.append_inj' h rfl
    exact ⟨hkey, (List.cons.inj hseq).1⟩
  · rintro ⟨hkey, hseq⟩
    rw [hkey, hseq]
    rfl

omit hrows hl in
theorem matches_candKey {s : ViewSpec} {c : Claim} {σ : Var → Cell} :
    Datalog.Matches σ (none :: varArgs s.keyVars ++ [none]) (candTuple l s c) ↔
      keyTuple s c = s.keyVars.map σ := by
  unfold candTuple
  rw [List.cons_append, List.cons_append, matches_any, matches_concat, matches_varArgs]
  simp

omit hrows hl in
theorem matches_candSeq {s : ViewSpec} {c : Claim} {σ : Var → Cell} {v : Var} :
    Datalog.Matches σ (none :: varArgs s.keyVars ++ [some (.var v)]) (candTuple l s c) ↔
      keyTuple s c = s.keyVars.map σ ∧ σ v = .number ((reads l).seq c) := by
  unfold candTuple
  rw [List.cons_append, List.cons_append, matches_any, matches_concat, matches_varArgs]
  simp

variable {s : ViewSpec} (hs : s ∈ specs) (hown : ∀ s' ∈ specs, s'.engine = s.engine → s' = s)
  (hm : s.multi = false)

include hs hown hm

/-- A `cand` atom over the variables of a row. -/
theorem holds_cand {σ : Var → Cell} {v : Var} :
    (Literal.pos (atomOf (.cand s.engine) (v :: s.keyVars ++ [.seq]))).Holds (derived rows w specs) σ ↔
      ∃ c ∈ candidates l s, σ v = .symbol c.asrtId ∧ s.keyVars.map σ = keyTuple s c ∧
        σ .seq = .number ((reads l).seq c) := by
  unfold Literal.Holds Atom.Holds atomOf
  simp only [derived_cand hrows hl hs hown hm, matches_varArgs]
  constructor
  · rintro ⟨t, ⟨c, hc, rfl⟩, heq⟩
    obtain ⟨hv, hkey, hseq⟩ := candTuple_eq_iff.mp heq
    exact ⟨c, hc, hv.symm, hkey.symm, hseq.symm⟩
  · rintro ⟨c, hc, hv, hkey, hseq⟩
    exact ⟨_, ⟨c, hc, rfl⟩, candTuple_eq_iff.mpr ⟨hv.symm, hkey.symm, hseq.symm⟩⟩

/-- **`max_seq`** has a row for every group: the sequence of its last claim. -/
theorem derived_maxSeq (t : List Cell) :
    derived rows w specs (.maxSeq s.engine) t ↔ ∃ c ∈ lasts (keyTuple s) (candidates l s),
      t = keyTuple s c ++ [.number ((reads l).seq c)] := by
  have hrule : s.maxSeqRule ∈ s.rules w := by
    rw [s.rules_single hm]
    exact List.mem_cons_of_mem _ List.mem_cons_self
  rw [show Rel.maxSeq s.engine = s.maxSeqRule.rel from rfl,
    derived_by_rule hs hown s.maxSeqRule hrule fun rule' h hrel => (s.eq_of_rel hm h).2.1 hrel]
  have hasc := ((sequenced_activeOf hl s.predId).sub
    (List.filter_sublist (p := fun c => HasDims s c))).ascending
  -- the numbers the aggregate ranges over are the sequences of the group
  have hset : ∀ (σ : Var → Cell) (x : Cell), (∃ τ : Var → Cell, τ .inner = x ∧
        (∀ u, u ≠ .inner → τ u = σ u) ∧
        (Datalog.Atom.mk (.cand s.engine) (none :: varArgs s.keyVars ++
          [some (.var .inner)])).Holds (derived rows w specs) τ) ↔
      ∃ d ∈ candidates l s, keyTuple s d = s.keyVars.map σ ∧ x = .number ((reads l).seq d) := by
    intro σ x
    have hkey : ∀ τ : Var → Cell, (∀ u, u ≠ .inner → τ u = σ u) →
        s.keyVars.map τ = s.keyVars.map σ := by
      intro τ hτ
      apply List.map_congr_left
      intro v hv
      apply hτ
      rintro rfl
      simp [ViewSpec.keyVars, ViewSpec.dimVars] at hv
    unfold Atom.Holds
    simp only [derived_cand hrows hl hs hown hm]
    constructor
    · rintro ⟨τ, rfl, hτ, t, ⟨d, hd, rfl⟩, hmatch⟩
      obtain ⟨hd', hx⟩ := matches_candSeq.mp hmatch
      exact ⟨d, hd, hd'.trans (hkey τ hτ), hx⟩
    · rintro ⟨d, hd, hd', rfl⟩
      have hτ : ∀ u, u ≠ Var.inner →
          Function.update σ .inner (.number ((reads l).seq d)) u = σ u :=
        fun u hu => Function.update_of_ne hu _ _
      exact ⟨_, Function.update_self _ _ _, hτ, _, ⟨d, hd, rfl⟩,
        matches_candSeq.mpr ⟨hd'.trans (hkey _ hτ).symm, Function.update_self _ _ _⟩⟩
  have hbody : ∀ σ : Var → Cell, (∀ lit ∈ s.maxSeqRule.body, lit.Holds (derived rows w specs) σ) ↔
      ∃ c ∈ lasts (keyTuple s) (candidates l s), s.keyVars.map σ = keyTuple s c ∧
        σ .seq = .number ((reads l).seq c) := by
    intro σ
    unfold ViewSpec.maxSeqRule
    rw [List.forall_mem_cons, List.forall_mem_singleton]
    show (∃ t, _) ∧ Cell.isMax {x | _} (σ .seq) ↔ _
    constructor
    · rintro ⟨_, n, hn, hmem, hmax⟩
      obtain ⟨c, hc, hkey, hnc⟩ := (hset σ _).mp hmem
      have hnc : n = (reads l).seq c := Cell.number.inj hnc
      subst hnc
      refine ⟨c, (mem_lasts_iff_of_ascending hasc).mpr ⟨hc, ?_⟩, hkey.symm, hn⟩
      intro d hd hdc
      exact Int.ofNat_le.mp (hmax _ ((hset σ _).mpr ⟨d, hd, hdc.trans hkey, rfl⟩))
    · rintro ⟨c, hc, hkey, hn⟩
      obtain ⟨hc, hmax⟩ := (mem_lasts_iff_of_ascending hasc).mp hc
      refine ⟨⟨candTuple l s c, (derived_cand hrows hl hs hown hm _).mpr ⟨c, hc, rfl⟩,
        matches_candKey.mpr hkey.symm⟩, _, hn, (hset σ _).mpr ⟨c, hc, hkey.symm, rfl⟩, ?_⟩
      intro m hmem
      obtain ⟨d, hd, hd', hm⟩ := (hset σ _).mp hmem
      rw [Cell.number.inj hm]
      exact Int.ofNat_le.mpr (hmax d hd (hd'.trans hkey))
  simp only [hbody]
  constructor
  · rintro ⟨σ, rfl, c, hc, hkey, hn⟩
    refine ⟨c, hc, ?_⟩
    show (headArgs (s.keyVars ++ [.seq])).map (·.eval σ) = _
    rw [eval_headArgs, List.map_append, hkey, List.map_singleton, hn]
  · rintro ⟨c, hc, rfl⟩
    refine ⟨valuation s ((reads l).seq c) c, ?_, c, hc, valuation_keyVars, rfl⟩
    show (headArgs (s.keyVars ++ [.seq])).map (·.eval (valuation s ((reads l).seq c) c)) = _
    rw [eval_headArgs, List.map_append, valuation_keyVars]
    rfl

/-- A `max_seq` atom over the variables of a row. -/
theorem holds_maxSeq {σ : Var → Cell} :
    (Literal.pos (atomOf (.maxSeq s.engine) (s.keyVars ++ [.seq]))).Holds
        (derived rows w specs) σ ↔
      ∃ c ∈ lasts (keyTuple s) (candidates l s), s.keyVars.map σ = keyTuple s c ∧
        σ .seq = .number ((reads l).seq c) := by
  unfold Literal.Holds Atom.Holds atomOf
  simp only [derived_maxSeq hrows hl hs hown hm, matches_varArgs, List.map_append,
    List.map_singleton]
  constructor
  · rintro ⟨t, ⟨c, hc, rfl⟩, heq⟩
    obtain ⟨hkey, hseq⟩ := List.append_inj' heq rfl
    exact ⟨c, hc, hkey.symm, (List.cons.inj hseq).1.symm⟩
  · rintro ⟨c, hc, hkey, hseq⟩
    exact ⟨_, ⟨c, hc, rfl⟩, by rw [hkey, hseq]⟩

/-- **No claim is better** than one of its own sequence. -/
theorem derived_better (t : List Cell) : ¬ derived rows w specs (.better s.engine) t := by
  have hrule : s.betterRule ∈ s.rules w := by
    rw [s.rules_single hm]
    exact List.mem_cons_of_mem _ (List.mem_cons_of_mem _ List.mem_cons_self)
  rw [show Rel.better s.engine = s.betterRule.rel from rfl,
    derived_by_rule hs hown s.betterRule hrule fun rule' h hrel => (s.eq_of_rel hm h).2.2.1 hrel]
  rintro ⟨σ, _, hbody⟩
  unfold ViewSpec.betterRule at hbody
  simp only [List.mem_cons, List.not_mem_nil, or_false, forall_eq_or_imp, forall_eq] at hbody
  obtain ⟨hcand, _, hother, hless⟩ := hbody
  obtain ⟨c, hc, ha, _, hq⟩ := (holds_cand hrows hl hs hown hm).mp hcand
  obtain ⟨d, hd, hb, _, hq'⟩ := (holds_cand hrows hl hs hown hm).mp hother
  -- the two claims have one sequence, so they are one claim
  have hsame : c = d := by
    have hseq : (reads l).seq c = (reads l).seq d :=
      Int.ofNat.inj (Cell.number.inj (hq.symm.trans hq'))
    have hasc := (sequenced_activeOf hl s.predId).ascending
    have hnodup : ((activeOf l s.predId).map (reads l).seq).Nodup :=
      List.pairwise_map.mpr (hasc.imp Nat.ne_of_lt)
    exact List.inj_on_of_nodup_map hnodup (mem_candidates.mp hc).1 (mem_candidates.mp hd).1 hseq
  subst hsame
  change Cell.less (σ .b) (σ .a) at hless
  rw [ha, hb] at hless
  exact absurd hless (lt_irrefl c.asrtId)

/-- **`chosen_asrt`** has the last claim of every group. -/
theorem derived_chosen (t : List Cell) :
    derived rows w specs (.chosen s.engine) t ↔ ∃ c ∈ lasts (keyTuple s) (candidates l s),
      t = keyTuple s c ++ [.symbol c.asrtId] := by
  have hrule : s.chosenRule ∈ s.rules w := by
    rw [s.rules_single hm]
    exact List.mem_cons_of_mem _ (List.mem_cons_of_mem _
      (List.mem_cons_of_mem _ List.mem_cons_self))
  rw [show Rel.chosen s.engine = s.chosenRule.rel from rfl,
    derived_by_rule hs hown s.chosenRule hrule fun rule' h hrel =>
      (s.eq_of_rel hm h).2.2.2.1 hrel]
  have hasc := ((sequenced_activeOf hl s.predId).sub
    (List.filter_sublist (p := fun c => HasDims s c))).ascending
  have hbody : ∀ σ : Var → Cell, (∀ lit ∈ s.chosenRule.body, lit.Holds (derived rows w specs) σ) ↔
      ∃ c ∈ lasts (keyTuple s) (candidates l s), σ .a = .symbol c.asrtId ∧
        s.keyVars.map σ = keyTuple s c ∧ σ .seq = .number ((reads l).seq c) := by
    intro σ
    unfold ViewSpec.chosenRule
    simp only [List.mem_cons, List.not_mem_nil, or_false, forall_eq_or_imp, forall_eq]
    constructor
    · rintro ⟨hcand, hmax, _⟩
      obtain ⟨c, hc, ha, hkey, hq⟩ := (holds_cand hrows hl hs hown hm).mp hcand
      obtain ⟨d, hd, hkey', hq'⟩ := (holds_maxSeq hrows hl hs hown hm).mp hmax
      refine ⟨c, (mem_lasts_iff_of_ascending hasc).mpr ⟨hc, ?_⟩, ha, hkey, hq⟩
      intro b hb hbc
      have hseq : (reads l).seq c = (reads l).seq d :=
        Int.ofNat.inj (Cell.number.inj (hq.symm.trans hq'))
      rw [hseq]
      exact ((mem_lasts_iff_of_ascending hasc).mp hd).2 b hb
        (hbc.trans (hkey.symm.trans hkey'))
    · rintro ⟨c, hc, ha, hkey, hq⟩
      have hcand := ((mem_lasts_iff_of_ascending hasc).mp hc).1
      refine ⟨(holds_cand hrows hl hs hown hm).mpr ⟨c, hcand, ha, hkey, hq⟩,
        (holds_maxSeq hrows hl hs hown hm).mpr ⟨c, hc, hkey, hq⟩, ?_⟩
      rintro ⟨t, hbetter, _⟩
      exact derived_better hrows hl hs hown hm t hbetter
  simp only [hbody]
  constructor
  · rintro ⟨σ, rfl, c, hc, ha, hkey, _⟩
    refine ⟨c, hc, ?_⟩
    show (headArgs (s.keyVars ++ [.a])).map (·.eval σ) = _
    rw [eval_headArgs, List.map_append, hkey, List.map_singleton, ha]
  · rintro ⟨c, hc, rfl⟩
    refine ⟨valuation s ((reads l).seq c) c, ?_, c, hc, rfl, valuation_keyVars, rfl⟩
    show (headArgs (s.keyVars ++ [.a])).map (·.eval (valuation s ((reads l).seq c) c)) = _
    rw [eval_headArgs, List.map_append, valuation_keyVars]
    rfl

/-- **The view of a single-valued predicate** has the rows of the last claims of the groups. -/
theorem view_single (t : List Cell) :
    derived rows w specs (.view s.engine) t ↔ ∃ c ∈ lasts (keyTuple s) (candidates l s),
      s.values ≤ (argsOf c).length ∧ t = viewRow s c := by
  have hchosen : ∀ σ : Var → Cell,
      (Literal.pos (atomOf (.chosen s.engine) (s.keyVars ++ [.a]))).Holds
        (derived rows w specs) σ ↔ ∃ c ∈ lasts (keyTuple s) (candidates l s),
          s.keyVars.map σ = keyTuple s c ∧ σ .a = .symbol c.asrtId := by
    intro σ
    unfold Literal.Holds Atom.Holds atomOf
    simp only [derived_chosen hrows hl hs hown hm, matches_varArgs, List.map_append,
      List.map_singleton]
    constructor
    · rintro ⟨t, ⟨c, hc, rfl⟩, heq⟩
      obtain ⟨hkey, ha⟩ := List.append_inj' heq rfl
      exact ⟨c, hc, hkey.symm, (List.cons.inj ha).1.symm⟩
    · rintro ⟨c, hc, hkey, ha⟩
      exact ⟨_, ⟨c, hc, rfl⟩, by rw [hkey, ha]⟩
  have hsub : lasts (keyTuple s) (candidates l s) ⊆ l.indexes.claims := by
    intro c hc
    have hcand : c ∈ candidates l s := List.mem_of_mem_filter hc
    exact (mem_activeOf.mp (mem_candidates.mp hcand).1).1
  rw [← outputRule_iff hrows hl [.pos (atomOf (.chosen s.engine) (s.keyVars ++ [.a]))]
    (reads l).seq hsub]
  · exact derived_by_rule hs hown ⟨.view s.engine, headArgs (.e :: s.valueVars), _⟩
      (by rw [s.rules_single hm]; exact List.mem_append_right _ List.mem_cons_self)
      (fun rule' h hrel => (s.eq_of_rel hm h).2.2.2.2 hrel)
  · intro σ h
    obtain ⟨c, hc, hkey, ha⟩ := (hchosen σ).mp (h _ (List.mem_singleton.mpr rfl))
    exact ⟨c, hc, ha, (List.cons.inj hkey).1⟩
  · intro c hc lit hlit
    obtain rfl := List.mem_singleton.mp hlit
    exact (hchosen _).mpr ⟨c, hc, valuation_keyVars, rfl⟩

omit hm

/-- The claims whose rows the view has: the active ones of a multi-valued predicate, and of a
single-valued one the last of every group of candidates whose dimensions have one text. -/
def shownClaims (l : Ledger) (s : ViewSpec) : List Claim :=
  if s.multi then activeOf l s.predId else lasts (keyTuple s) (candidates l s)

/-- **The view of a predicate.** -/
theorem view_iff (t : List Cell) :
    derived rows w specs (.view s.engine) t ↔ ∃ c ∈ shownClaims l s,
      s.values ≤ (argsOf c).length ∧ t = viewRow s c := by
  unfold shownClaims
  cases hm : s.multi with
  | true => exact view_multi hrows hl hs hown hm t
  | false => exact view_single hrows hl hs hown hm t

end Program

end FactGraph.Souffle
