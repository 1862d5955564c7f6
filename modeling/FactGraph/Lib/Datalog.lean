import Mathlib.Data.Set.Basic
import Mathlib.Data.List.Forall2

/-!
# Datalog with stratified negation and aggregates

A program over relation names `R`, variables `V` and constants `C`, and its stratified least model.
A relation may be negated or aggregated only in rules of a higher stratum (`Stratified`). The model
of a stratum is the least one closed under the rules, where negations and aggregates read the model
of the strata below (`Derives`, `stage`).

What programs are verified with is `Model.iff_rule`: in the model, a tuple of a relation is a fact or
the head of a rule whose body holds in the model. For a program without recursion that determines
the model. A program may be written with other names for its relations, if these are different
(`Model.map_iff`).
-/

namespace FactGraph.Datalog

/-! ## Syntax -/

/-- A term. -/
inductive Term (V C : Type) where
  | var (v : V)
  | const (c : C)

/-- An atom of a body; the term `none` is the wildcard `_`. -/
structure Atom (R V C : Type) where
  rel : R
  args : List (Option (Term V C))

/-- A literal. `aggregate f v w a` is `v = f w : { a }`, where `w` is local to the braces. -/
inductive Literal (R V C : Type) where
  | pos (a : Atom R V C)
  | neg (a : Atom R V C)
  | compare (p : C → C → Prop) (x y : Term V C)
  | aggregate (f : Set C → C → Prop) (v w : V) (a : Atom R V C)

structure Rule (R V C : Type) where
  rel : R
  args : List (Term V C)
  body : List (Literal R V C)

variable {R V C : Type}

/-! ## Meaning -/

/-- What each relation holds. -/
abbrev Interp (R C : Type) := R → List C → Prop

def Term.eval (σ : V → C) : Term V C → C
  | .var v => σ v
  | .const c => c

/-- The tuple is an instance of the arguments. -/
def Matches (σ : V → C) (args : List (Option (Term V C))) (t : List C) : Prop :=
  List.Forall₂ (fun arg c => ∀ x, arg = some x → x.eval σ = c) args t

def Atom.Holds (I : Interp R C) (σ : V → C) (a : Atom R V C) : Prop :=
  ∃ t, I a.rel t ∧ Matches σ a.args t

/-- A literal, with all its relations read in one interpretation. -/
def Literal.Holds (I : Interp R C) (σ : V → C) : Literal R V C → Prop
  | .pos a => a.Holds I σ
  | .neg a => ¬ a.Holds I σ
  | .compare p x y => p (x.eval σ) (y.eval σ)
  | .aggregate f v w a =>
      f {c | ∃ τ, τ w = c ∧ (∀ u, u ≠ w → τ u = σ u) ∧ a.Holds I τ} (σ v)

/-- What is derived from the facts, if negations and aggregates are read in `low`. -/
inductive Derives (rules : List (Rule R V C)) (facts low : Interp R C) : Interp R C
  | fact {r : R} {t : List C} (h : facts r t) : Derives rules facts low r t
  | rule {rule : Rule R V C} (h : rule ∈ rules) (σ : V → C) (tuple : Atom R V C → List C)
      (hpos : ∀ a, .pos a ∈ rule.body → Derives rules facts low a.rel (tuple a))
      (hmatch : ∀ a, .pos a ∈ rule.body → Matches σ a.args (tuple a))
      (hrest : ∀ l ∈ rule.body, (∀ a, l ≠ .pos a) → l.Holds low σ) :
      Derives rules facts low rule.rel (rule.args.map (·.eval σ))

/-- The relations of a literal are in no higher stratum, and in a lower one if it is a negation or an
aggregate. -/
def Literal.Below (stratum : R → Nat) (n : Nat) : Literal R V C → Prop
  | .pos a => stratum a.rel ≤ n
  | .neg a => stratum a.rel < n
  | .compare _ _ _ => True
  | .aggregate _ _ _ a => stratum a.rel < n

/-- Negation and aggregation go down in the strata, and nothing goes up. -/
def Stratified (rules : List (Rule R V C)) (stratum : R → Nat) : Prop :=
  ∀ rule ∈ rules, ∀ l ∈ rule.body, l.Below stratum (stratum rule.rel)

/-- The model of the strata below `n`. -/
def stage (rules : List (Rule R V C)) (facts : Interp R C) (stratum : R → Nat) :
    Nat → Interp R C
  | 0 => fun _ _ => False
  | n + 1 => fun r t => stratum r ≤ n ∧ Derives rules facts (stage rules facts stratum n) r t

/-- The stratified least model. -/
def Model (rules : List (Rule R V C)) (facts : Interp R C) (stratum : R → Nat) : Interp R C :=
  fun r t => stage rules facts stratum (stratum r + 1) r t

/-! ## The model is a fixed point -/

variable {rules : List (Rule R V C)} {facts : Interp R C} {stratum : R → Nat}

/-- A literal that is not positive reads only the strata below. -/
theorem Literal.Below.holds_congr {I J : Interp R C} {σ : V → C} {n : Nat} {l : Literal R V C}
    (h : l.Below stratum n) (hnot : ∀ a, l ≠ .pos a)
    (hlow : ∀ q, stratum q < n → ∀ t, I q t ↔ J q t) : l.Holds I σ ↔ l.Holds J σ := by
  cases l with
  | pos a => exact absurd rfl (hnot a)
  | neg a => simp only [Literal.Holds, Atom.Holds, hlow a.rel h]
  | compare p x y => rfl
  | aggregate f v w a => simp only [Literal.Holds, Atom.Holds, hlow a.rel h]

/-- A derivation in a stratum looks only at the strata below it. -/
theorem Derives.congr (hs : Stratified rules stratum) {low low' : Interp R C} {r : R} {t : List C}
    (h : Derives rules facts low r t)
    (hlow : ∀ q, stratum q < stratum r → ∀ t, low q t ↔ low' q t) :
    Derives rules facts low' r t := by
  induction h with
  | fact h => exact .fact h
  | @rule rule hmem σ tuple _ hmatch hrest ih =>
    refine .rule hmem σ tuple ?_ hmatch ?_
    · intro a ha
      apply ih a ha
      intro q hq
      exact hlow q (Nat.lt_of_lt_of_le hq (hs rule hmem _ ha))
    · intro l hl hnot
      exact ((hs rule hmem l hl).holds_congr hnot hlow).mp (hrest l hl hnot)

/-- Later stages leave a stratum as it is. -/
theorem stage_iff_model (hs : Stratified rules stratum) (n : Nat) :
    ∀ r, stratum r < n → ∀ t, stage rules facts stratum n r t ↔ Model rules facts stratum r t := by
  induction n using Nat.strong_induction_on with
  | h n ih =>
    intro r hr t
    obtain ⟨m, rfl⟩ : ∃ m, n = m + 1 := ⟨n - 1, by omega⟩
    -- both are derivations over stages that agree below the stratum of `r`
    have hagree : ∀ q, stratum q < stratum r → ∀ t,
        stage rules facts stratum m q t ↔ stage rules facts stratum (stratum r) q t := by
      intro q hq t
      rw [ih m (by omega) q (by omega) t, ih (stratum r) hr q hq t]
    show stratum r ≤ m ∧ _ ↔ stratum r ≤ stratum r ∧ _
    constructor
    · rintro ⟨_, hd⟩
      exact ⟨Nat.le_refl _, hd.congr hs hagree⟩
    · rintro ⟨_, hd⟩
      exact ⟨Nat.le_of_lt_succ hr, hd.congr hs fun q hq t => (hagree q hq t).symm⟩

/-- The model derives what it holds, and holds what it derives. -/
theorem Model.iff_derives (hs : Stratified rules stratum) {r : R} {t : List C} :
    Model rules facts stratum r t ↔ Derives rules facts (Model rules facts stratum) r t := by
  have hagree : ∀ q, stratum q < stratum r → ∀ t,
      stage rules facts stratum (stratum r) q t ↔ Model rules facts stratum q t :=
    fun q hq t => stage_iff_model hs (stratum r) q hq t
  show stratum r ≤ stratum r ∧ _ ↔ _
  constructor
  · rintro ⟨_, hd⟩
    exact hd.congr hs hagree
  · intro hd
    exact ⟨Nat.le_refl _, hd.congr hs fun q hq t => (hagree q hq t).symm⟩

/-- **A tuple of the model is a fact or the head of a rule whose body holds in the model.** -/
theorem Model.iff_rule (hs : Stratified rules stratum) {r : R} {t : List C} :
    Model rules facts stratum r t ↔ facts r t ∨
      ∃ rule ∈ rules, rule.rel = r ∧ ∃ σ, rule.args.map (·.eval σ) = t ∧
        ∀ l ∈ rule.body, l.Holds (Model rules facts stratum) σ := by
  rw [Model.iff_derives hs]
  constructor
  · intro h
    cases h with
    | fact h => exact .inl h
    | @rule rule hmem σ tuple hpos hmatch hrest =>
      refine .inr ⟨rule, hmem, rfl, σ, rfl, ?_⟩
      intro l hl
      cases l with
      | pos a => exact ⟨tuple a, (Model.iff_derives hs).mpr (hpos a hl), hmatch a hl⟩
      | neg a => exact hrest _ hl (by simp)
      | compare p x y => exact hrest _ hl (by simp)
      | aggregate f v w a => exact hrest _ hl (by simp)
  · rintro (h | ⟨rule, hmem, rfl, σ, rfl, hbody⟩)
    · exact .fact h
    · -- a tuple for every atom of the body; what the others get does not matter
      have hatoms : ∀ a : Atom R V C, ∃ t, .pos a ∈ rule.body →
          Model rules facts stratum a.rel t ∧ Matches σ a.args t := by
        intro a
        by_cases ha : .pos a ∈ rule.body
        · obtain ⟨t, ht⟩ := hbody _ ha
          exact ⟨t, fun _ => ht⟩
        · exact ⟨[], fun h => absurd h ha⟩
      obtain ⟨tuple, htuple⟩ := Classical.axiomOfChoice hatoms
      exact .rule hmem σ tuple (fun a ha => (Model.iff_derives hs).mp (htuple a ha).1)
        (fun a ha => (htuple a ha).2) fun l hl _ => hbody l hl

/-! ## Other names -/

section Names

variable {S : Type} (f : R → S) (g : C → C)

/-- A program with the relations named by `f`, and its constants read by `g`. -/
def Term.map : Term V C → Term V C
  | .var v => .var v
  | .const c => .const (g c)

def Atom.map (a : Atom R V C) : Atom S V C := ⟨f a.rel, a.args.map (·.map (Term.map g))⟩

def Literal.map : Literal R V C → Literal S V C
  | .pos a => .pos (a.map f g)
  | .neg a => .neg (a.map f g)
  | .compare p x y => .compare p (x.map g) (y.map g)
  | .aggregate h v w a => .aggregate h v w (a.map f g)

def Rule.map (r : Rule R V C) : Rule S V C := ⟨f r.rel, r.args.map (Term.map g), r.body.map (·.map f g)⟩

/-- The relation a literal reads. -/
def Literal.rel? : Literal R V C → Option R
  | .pos a | .neg a | .aggregate _ _ _ a => some a.rel
  | .compare _ _ _ => none

variable {f} {P : R → Prop} {facts' : Interp S C} {stratum' : S → Nat}

theorem Atom.holds_map {I : Interp R C} {J : Interp S C} {σ : V → C} {a : Atom R V C}
    (hg : a.map id g = a) (h : ∀ t, J (f a.rel) t ↔ I a.rel t) :
    (a.map f g).Holds J σ ↔ a.Holds I σ := by
  have hargs : a.args.map (·.map (Term.map g)) = a.args := congrArg Atom.args hg
  unfold Atom.Holds Atom.map
  simp only [hargs, h]

theorem Literal.holds_map {I : Interp R C} {J : Interp S C} {σ : V → C} {l : Literal R V C}
    (hg : l.map id g = l) (h : ∀ r, l.rel? = some r → ∀ t, J (f r) t ↔ I r t) :
    (l.map f g).Holds J σ ↔ l.Holds I σ := by
  cases l with
  | pos a => exact Atom.holds_map g (Literal.pos.inj hg) (h a.rel rfl)
  | neg a => exact not_congr (Atom.holds_map g (Literal.neg.inj hg) (h a.rel rfl))
  | compare p x y =>
    obtain ⟨_, hx, hy⟩ := Literal.compare.inj hg
    show p ((x.map g).eval σ) ((y.map g).eval σ) ↔ _
    rw [hx, hy]
    rfl
  | aggregate k v w a =>
    have ha : a.map id g = a := (Literal.aggregate.inj hg).2.2.2
    have hiff : ∀ τ : V → C, (a.map f g).Holds J τ ↔ a.Holds I τ :=
      fun τ => Atom.holds_map g ha (h a.rel rfl)
    show k {c | ∃ τ, τ w = c ∧ _ ∧ (a.map f g).Holds J τ} _ ↔ _
    simp only [hiff]
    rfl

variable (hP : ∀ rule ∈ rules, P rule.rel ∧ ∀ l ∈ rule.body, ∀ r, l.rel? = some r → P r)
  (hg : ∀ rule ∈ rules, rule.map id g = rule)
  (hinj : ∀ r r', P r → P r' → f r = f r' → r = r')
  (hfacts : ∀ r, P r → ∀ t, facts' (f r) t ↔ facts r t)

include hP hg hinj hfacts

/-- What is derived under the other names is derived. -/
theorem Derives.map_iff {low : Interp R C} {low' : Interp S C}
    (hlow : ∀ r, P r → ∀ t, low' (f r) t ↔ low r t) {r : R} (hr : P r) {t : List C} :
    Derives (rules.map (Rule.map f g)) facts' low' (f r) t ↔ Derives rules facts low r t := by
  have hargs : ∀ rule ∈ rules, rule.args.map (Term.map g) = rule.args :=
    fun rule h => congrArg Rule.args (hg rule h)
  have hlits : ∀ rule ∈ rules, ∀ l ∈ rule.body, l.map id g = l := by
    intro rule hrule l hl
    have hbody : rule.body.map (·.map id g) = rule.body := congrArg Rule.body (hg rule hrule)
    exact List.map_inj_left.mp (hbody.trans (List.map_id _).symm) l hl
  have hatom : ∀ rule ∈ rules, ∀ a, .pos a ∈ rule.body → ∀ (σ : V → C) ts,
      Matches σ (a.map f g).args ts ↔ Matches σ a.args ts := by
    intro rule hrule a ha σ ts
    have hsame : a.args.map (·.map (Term.map g)) = a.args :=
      congrArg Atom.args (Literal.pos.inj (hlits rule hrule _ ha))
    rw [show (a.map f g).args = a.args.map (·.map (Term.map g)) from rfl, hsame]
  constructor
  · intro h
    generalize hx : f r = x at h
    induction h generalizing r with
    | fact h =>
      subst hx
      exact .fact ((hfacts r hr _).mp h)
    | @rule rule' hmem σ tuple _ hmatch hrest ih =>
      obtain ⟨rule, hrule, rfl⟩ := List.mem_map.mp hmem
      obtain rfl := hinj r rule.rel hr (hP rule hrule).1 hx
      have hpos : ∀ a, .pos a ∈ rule.body → Literal.pos (a.map f g) ∈ (rule.map f g).body :=
        fun a ha => List.mem_map.mpr ⟨_, ha, rfl⟩
      rw [show (rule.map f g).args = rule.args from hargs rule hrule]
      refine .rule hrule σ (fun a => tuple (a.map f g)) ?_ ?_ ?_
      · intro a ha
        exact ih (a.map f g) (hpos a ha) ((hP rule hrule).2 _ ha a.rel rfl) rfl
      · intro a ha
        exact (hatom rule hrule a ha σ _).mp (hmatch (a.map f g) (hpos a ha))
      · intro l hl hnot
        have hnot' : ∀ a, l.map f g ≠ .pos a := by
          intro a heq
          cases l with
          | pos b => exact hnot b rfl
          | neg b => cases heq
          | compare p x y => cases heq
          | aggregate k v w b => cases heq
        refine (Literal.holds_map g (hlits rule hrule l hl) ?_).mp
          (hrest _ (List.mem_map.mpr ⟨l, hl, rfl⟩) hnot')
        exact fun q hq => hlow q ((hP rule hrule).2 l hl q hq)
  · intro h
    induction h with
    | fact h => exact .fact ((hfacts _ hr _).mpr h)
    | @rule rule hrule σ tuple _ hmatch hrest ih =>
      -- the tuple of a renamed atom is that of an atom of the body that is named so
      have hatoms : ∀ b : Atom S V C, ∃ ts, ∀ a, .pos a ∈ rule.body → a.map f g = b →
          Derives (rules.map (Rule.map f g)) facts' low' b.rel ts ∧ Matches σ b.args ts := by
        intro b
        by_cases hb : ∃ a, .pos a ∈ rule.body ∧ a.map f g = b
        · obtain ⟨a, ha, rfl⟩ := hb
          refine ⟨tuple a, fun _ _ _ => ⟨?_, ?_⟩⟩
          · exact ih a ha ((hP rule hrule).2 _ ha a.rel rfl)
          · exact (hatom rule hrule a ha σ _).mpr (hmatch a ha)
        · exact ⟨[], fun a ha heq => absurd ⟨a, ha, heq⟩ hb⟩
      obtain ⟨tuple', htuple⟩ := Classical.axiomOfChoice hatoms
      have hpos : ∀ b, .pos b ∈ (rule.map f g).body → ∃ a, .pos a ∈ rule.body ∧ a.map f g = b := by
        intro b hb
        obtain ⟨l, hl, heq⟩ := List.mem_map.mp hb
        cases l with
        | pos a => exact ⟨a, hl, Literal.pos.inj heq⟩
        | neg a => cases heq
        | compare p x y => cases heq
        | aggregate k v w a => cases heq
      rw [← hargs rule hrule]
      refine Derives.rule (List.mem_map.mpr ⟨rule, hrule, rfl⟩) σ tuple' ?_ ?_ ?_
      · intro b hb
        obtain ⟨a, ha, heq⟩ := hpos b hb
        exact (htuple b a ha heq).1
      · intro b hb
        obtain ⟨a, ha, heq⟩ := hpos b hb
        exact (htuple b a ha heq).2
      · intro l' hl' hnot
        obtain ⟨l, hl, rfl⟩ := List.mem_map.mp hl'
        refine (Literal.holds_map g (hlits rule hrule l hl) ?_).mpr (hrest l hl ?_)
        · exact fun q hq => hlow q ((hP rule hrule).2 l hl q hq)
        · rintro a rfl
          exact hnot _ rfl

/-- **Other names do not change a model**, where different relations have different names. -/
theorem Model.map_iff (hstratum : ∀ r, P r → stratum' (f r) = stratum r) {r : R} (hr : P r)
    {t : List C} :
    Model (rules.map (Rule.map f g)) facts' stratum' (f r) t ↔ Model rules facts stratum r t := by
  have hstage : ∀ n r, P r → ∀ t, stage (rules.map (Rule.map f g)) facts' stratum' n (f r) t ↔
      stage rules facts stratum n r t := by
    intro n
    induction n with
    | zero => exact fun _ _ _ => Iff.rfl
    | succ n ih =>
      intro r hr t
      show stratum' (f r) ≤ n ∧ _ ↔ stratum r ≤ n ∧ _
      rw [hstratum r hr, Derives.map_iff g hP hg hinj hfacts ih hr]
  show stage _ _ _ (stratum' (f r) + 1) (f r) t ↔ _
  rw [hstratum r hr]
  exact hstage _ r hr t

end Names

/-! ## Matching -/

variable {σ : V → C} {args : List (Option (Term V C))} {c : C} {cs : List C}

@[simp] theorem matches_nil : Matches σ [] cs ↔ cs = [] := List.forall₂_nil_left_iff

@[simp] theorem matches_var {v : V} :
    Matches σ (some (.var v) :: args) (c :: cs) ↔ σ v = c ∧ Matches σ args cs := by
  unfold Matches
  simp [Term.eval]

@[simp] theorem matches_const {k : C} :
    Matches σ (some (.const k) :: args) (c :: cs) ↔ k = c ∧ Matches σ args cs := by
  unfold Matches
  simp [Term.eval]

@[simp] theorem matches_any :
    Matches σ (none :: args) (c :: cs) ↔ Matches σ args cs := by
  unfold Matches
  simp

theorem matches_append {args' : List (Option (Term V C))} {t : List C} :
    Matches σ (args ++ args') t ↔
      ∃ ts ts', t = ts ++ ts' ∧ Matches σ args ts ∧ Matches σ args' ts' := by
  unfold Matches
  constructor
  · intro h
    have hflip := h.flip
    exact ⟨_, _, (List.take_append_drop args.length t).symm,
      (List.forall₂_take_append t args args' hflip).flip,
      (List.forall₂_drop_append t args args' hflip).flip⟩
  · rintro ⟨ts, ts', rfl, h, h'⟩
    exact List.rel_append h h'

theorem matches_concat {arg : Option (Term V C)} :
    Matches σ (args ++ [arg]) (cs ++ [c]) ↔ Matches σ args cs ∧ Matches σ [arg] [c] := by
  rw [matches_append]
  constructor
  · rintro ⟨ts, ts', heq, h, h'⟩
    have hlen : ts'.length = 1 := (List.Forall₂.length_eq h').symm
    obtain ⟨rfl, rfl⟩ := List.append_inj' heq hlen.symm
    exact ⟨h, h'⟩
  · rintro ⟨h, h'⟩
    exact ⟨cs, [c], rfl, h, h'⟩

end FactGraph.Datalog
