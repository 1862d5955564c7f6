import FactGraph.Rules.Overlay

/-!
# What an overlay does to a clause

The evaluator rewrites a clause in three passes, one replacement after the other. Said at once: every
literal of the clause has an address, the overlay gives some addresses a new literal, and a branch of
the rewritten clause holds the conditions that are not disabled, with their new literals, and after
them the added ones (`Overlay.rewritten`). An overlay is applied exactly when it fits the clause
(`Overlay.Fits`), and then all of it is applied (`applyOverlay_ok_iff`).
-/

namespace FactGraph.Rules

open Check

/-! ## Literals and their addresses -/

/-- A change of the literal of a term; a variable and an aggregate have none. -/
def Term.mapConst (f : Value → Value) : Term → Term
  | .const v => .const (f v)
  | t => t

/-- A simultaneous change of the literals of an atom, by their addresses. -/
def Atom.mapLiterals (f : LiteralPath → Value → Value) : Atom → Atom
  | .pred p terms => .pred p (terms.mapIdx fun i t => t.mapConst (f (.predTerm i)))
  | .cmp op lhs rhs => .cmp op (lhs.mapConst (f .lhs)) (rhs.mapConst (f .rhs))
  | .inn x values => .inn x (values.mapIdx fun i => f (.inValue i))
  | .builtin op args =>
      if op = .addc ∨ op = .mulc then
        .builtin op (args.mapIdx fun i t => if i = 2 then t.mapConst (f .constOperand) else t)
      else .builtin op args
  | a => a

/-- The literal of a term. -/
def Term.const? : Term → Option Value
  | .const v => some v
  | .var _ | .agg .. => none

/-- The literal at an address. -/
def Atom.literalAt? : Atom → LiteralPath → Option Value
  | .pred _ terms, .predTerm i => terms[i]?.bind Term.const?
  | .cmp _ lhs _, .lhs => lhs.const?
  | .cmp _ _ rhs, .rhs => rhs.const?
  | .inn _ values, .inValue i => values[i]?
  | .builtin op args, .constOperand =>
      if op = .addc ∨ op = .mulc then args[2]?.bind Term.const? else none
  | _, _ => none

@[simp] theorem Term.mapConst_mapConst (f g : Value → Value) (t : Term) :
    (t.mapConst f).mapConst g = t.mapConst fun v => g (f v) := by
  cases t <;> rfl

@[simp] theorem Term.const?_mapConst (f : Value → Value) (t : Term) :
    (t.mapConst f).const? = t.const?.map f := by
  cases t <;> rfl

theorem Term.mapConst_id {f : Value → Value} (h : ∀ v, f v = v) (t : Term) : t.mapConst f = t := by
  cases t <;> simp [Term.mapConst, h]

theorem bind_const?_mapConst (f : Value → Value) (t : Option Term) :
    ((t.map fun t => t.mapConst f).bind fun t => t.const?) = (t.bind fun t => t.const?).map f := by
  cases t with
  | none => rfl
  | some t => exact Term.const?_mapConst f t

theorem mapIdx_eq_self {A : Type} {f : Nat → A → A} (h : ∀ i a, f i a = a) (l : List A) :
    l.mapIdx f = l := by
  apply List.mapIdx_eq_iff.mpr
  intro i
  cases l[i]? with
  | none => rfl
  | some a => exact congrArg some (h i a).symm

/-- Changes are composed address by address. -/
theorem Atom.mapLiterals_mapLiterals (f g : LiteralPath → Value → Value) (a : Atom) :
    (a.mapLiterals f).mapLiterals g = a.mapLiterals fun p v => g p (f p v) := by
  cases a with
  | builtin op args =>
    by_cases hop : op = .addc ∨ op = .mulc
    · simp only [Atom.mapLiterals, if_pos hop, List.mapIdx_mapIdx]
      congr 2
      funext i t
      by_cases hi : i = 2 <;> simp [hi]
    · simp only [Atom.mapLiterals, if_neg hop]
  | _ => simp [Atom.mapLiterals, List.mapIdx_mapIdx, Function.comp_def]

/-- A change that changes nothing. -/
theorem Atom.mapLiterals_id {f : LiteralPath → Value → Value} (h : ∀ p v, f p v = v) (a : Atom) :
    a.mapLiterals f = a := by
  cases a with
  | pred p terms =>
    exact congrArg (Atom.pred p) (mapIdx_eq_self (fun i t => Term.mapConst_id (h _) t) terms)
  | inn x values => exact congrArg (Atom.inn x) (mapIdx_eq_self (fun i v => h _ v) values)
  | builtin op args =>
    show (if op = .addc ∨ op = .mulc then _ else _) = Atom.builtin op args
    split
    · apply congrArg (Atom.builtin op)
      apply mapIdx_eq_self
      intro i t
      rw [Term.mapConst_id (h _), ite_self]
    · rfl
  | _ => simp [Atom.mapLiterals, Term.mapConst_id (h _)]

/-- The literal at an address of a changed atom. -/
theorem Atom.literalAt?_mapLiterals (f : LiteralPath → Value → Value) (a : Atom) (p : LiteralPath) :
    (a.mapLiterals f).literalAt? p = (a.literalAt? p).map (f p) := by
  cases a with
  | builtin op args =>
    by_cases hop : op = .addc ∨ op = .mulc
    · cases p <;> simp [Atom.mapLiterals, Atom.literalAt?, hop, bind_const?_mapConst]
    · cases p <;> simp [Atom.mapLiterals, Atom.literalAt?, hop]
  | _ => cases p <;> simp [Atom.mapLiterals, Atom.literalAt?, bind_const?_mapConst]

/-! ## One replacement -/

/-- The replacement names a literal of the atom, and the literal it expects there. -/
structure WhereLiteralReplacement.FitsAtom (r : WhereLiteralReplacement) (a : Atom) : Prop where
  target : ∃ v, a.literalAt? r.literalPath = some v ∧ v.isLiteral = true ∧
    v.eqv r.oldLiteral = true
  new : r.newLiteral.isLiteral = true

/-- The change one replacement makes. -/
def WhereLiteralReplacement.change (r : WhereLiteralReplacement) (p : LiteralPath) (v : Value) :
    Value :=
  if p = r.literalPath then r.newLiteral else v

variable {r : WhereLiteralReplacement} {a : Atom}

theorem replaceLiteralLeaf_ok_iff {v w : Value} :
    replaceLiteralLeaf r v = .ok w ↔ (v.isLiteral = true ∧ v.eqv r.oldLiteral = true ∧
      r.newLiteral.isLiteral = true) ∧ w = r.newLiteral := by
  unfold replaceLiteralLeaf
  simp only [bind_unit_ok_iff, require_ok_iff, Except.ok.injEq, and_assoc,
    eq_comm (a := r.newLiteral)]

theorem replaceLiteralTerm_ok_iff {t u : Term} :
    replaceLiteralTerm r t = .ok u ↔ (∃ v, t.const? = some v ∧ v.isLiteral = true ∧
      v.eqv r.oldLiteral = true) ∧ r.newLiteral.isLiteral = true ∧
        u = t.mapConst fun _ => r.newLiteral := by
  cases t with
  | const v =>
    cases hleaf : replaceLiteralLeaf r v with
    | error e =>
      have hno : ¬ (v.isLiteral = true ∧ v.eqv r.oldLiteral = true ∧
          r.newLiteral.isLiteral = true) := by
        intro h
        rw [replaceLiteralLeaf_ok_iff.mpr ⟨h, rfl⟩] at hleaf
        cases hleaf
      simp only [replaceLiteralTerm, hleaf, Except.map, reduceCtorEq, Term.const?, false_iff]
      intro h
      rcases h with ⟨⟨w, hw, hlit, heqv⟩, hnew, _⟩
      cases hw
      exact hno ⟨hlit, heqv, hnew⟩
    | ok w =>
      rcases replaceLiteralLeaf_ok_iff.mp hleaf with ⟨⟨hlit, heqv, hnew⟩, rfl⟩
      simp only [replaceLiteralTerm, hleaf, Except.map, Except.ok.injEq, Term.const?,
        Option.some.injEq, exists_eq_left', hlit, heqv, hnew, true_and, Term.mapConst, eq_comm]
  | var x => simp [replaceLiteralTerm, Term.const?]
  | agg k target filter => simp [replaceLiteralTerm, Term.const?]

/-- A step that says when it succeeds and what it makes of an element, taken at an index. -/
theorem replaceAt_ok_iff {A : Type} {f : A → Except Err A} {P : A → Prop} {g : A → A}
    (hf : ∀ x y, f x = .ok y ↔ P x ∧ y = g x) {i : Nat} {e : Err} {xs ys : List A} :
    replaceAt f i e xs = .ok ys ↔
      (∃ x, xs[i]? = some x ∧ P x) ∧ ys = xs.mapIdx fun j x => if j = i then g x else x := by
  unfold replaceAt
  cases hx : xs[i]? with
  | none => simp
  | some x =>
    have hset : xs.set i (g x) = xs.mapIdx fun j x => if j = i then g x else x := by
      symm
      apply List.mapIdx_eq_iff.mpr
      intro j
      rcases List.getElem?_eq_some_iff.mp hx with ⟨hlt, rfl⟩
      by_cases hj : j = i
      · subst hj
        simp [hlt]
      · simp [hj, Ne.symm hj]
    cases hy : f x with
    | error e =>
      have hno : ¬ P x := by
        intro h
        rw [(hf x _).mpr ⟨h, rfl⟩] at hy
        cases hy
      simp [hy, Except.map, hno]
    | ok y =>
      rcases (hf x y).mp hy with ⟨hP, rfl⟩
      simp only [hy, Except.map, Except.ok.injEq, hset, Option.some.injEq, exists_eq_left', hP,
        true_and, eq_comm (b := ys)]

/-- `replaceAt` on the terms of an atom. -/
theorem replaceAt_terms_ok_iff {i : Nat} {e : Err} {terms ts : List Term} :
    replaceAt (replaceLiteralTerm r) i e terms = .ok ts ↔
      (∃ v, terms[i]?.bind Term.const? = some v ∧ v.isLiteral = true ∧
        v.eqv r.oldLiteral = true) ∧ r.newLiteral.isLiteral = true ∧
          ts = terms.mapIdx fun j t => if j = i then t.mapConst fun _ => r.newLiteral else t := by
  have hf : ∀ t u, replaceLiteralTerm r t = .ok u ↔ ((∃ v, t.const? = some v ∧
      v.isLiteral = true ∧ v.eqv r.oldLiteral = true) ∧ r.newLiteral.isLiteral = true) ∧
        u = t.mapConst fun _ => r.newLiteral := by
    intro t u
    rw [replaceLiteralTerm_ok_iff, and_assoc]
  rw [replaceAt_ok_iff hf]
  constructor
  · intro h
    rcases h with ⟨⟨t, ht, ⟨v, hv, hlit⟩, hnew⟩, rfl⟩
    exact ⟨⟨v, by rw [ht]; exact hv, hlit⟩, hnew, rfl⟩
  · intro h
    rcases h with ⟨⟨v, hv, hlit⟩, hnew, rfl⟩
    rcases Option.bind_eq_some_iff.mp hv with ⟨t, ht, hv⟩
    exact ⟨⟨t, ht, ⟨v, hv, hlit⟩, hnew⟩, rfl⟩

theorem WhereLiteralReplacement.fitsAtom_iff :
    r.FitsAtom a ↔ (∃ v, a.literalAt? r.literalPath = some v ∧ v.isLiteral = true ∧
      v.eqv r.oldLiteral = true) ∧ r.newLiteral.isLiteral = true :=
  ⟨fun h => ⟨h.target, h.new⟩, fun h => ⟨h.1, h.2⟩⟩

theorem map_ok_iff {A B : Type} {x : Except Err A} {f : A → B} {b : B} :
    x.map f = .ok b ↔ ∃ y, x = .ok y ∧ b = f y := by
  cases x with
  | error e => simp [Except.map]
  | ok y => simp [Except.map, eq_comm]

/-- The change of one replacement, at the address of a term. -/
theorem mapConst_change (p : LiteralPath) (t : Term) :
    t.mapConst (r.change p) = if p = r.literalPath then t.mapConst fun _ => r.newLiteral else t := by
  unfold WhereLiteralReplacement.change
  by_cases hp : p = r.literalPath
  · simp only [if_pos hp]
  · simp only [if_neg hp]
    exact Term.mapConst_id (fun _ => rfl) t

/-- **One replacement changes the literal it names, and nothing else.** -/
theorem applyLiteralReplacementToAtom_ok_iff {b : Atom} :
    applyLiteralReplacementToAtom a r = .ok b ↔ r.FitsAtom a ∧ b = a.mapLiterals r.change := by
  rw [r.fitsAtom_iff]
  unfold applyLiteralReplacementToAtom
  cases hpath : r.literalPath with
  | predTerm i =>
    cases a with
    | pred p terms =>
      simp only [map_ok_iff, replaceAt_terms_ok_iff, Atom.literalAt?, Atom.mapLiterals,
        mapConst_change, hpath, LiteralPath.predTerm.injEq]
      grind
    | _ => simp [Atom.literalAt?]
  | lhs =>
    cases a with
    | cmp op lhs rhs =>
      simp only [map_ok_iff, replaceLiteralTerm_ok_iff, Atom.literalAt?, Atom.mapLiterals,
        mapConst_change, hpath, reduceCtorEq, if_true, if_false]
      grind
    | _ => simp [Atom.literalAt?]
  | rhs =>
    cases a with
    | cmp op lhs rhs =>
      simp only [map_ok_iff, replaceLiteralTerm_ok_iff, Atom.literalAt?, Atom.mapLiterals,
        mapConst_change, hpath, reduceCtorEq, if_true, if_false]
      grind
    | _ => simp [Atom.literalAt?]
  | inValue i =>
    cases a with
    | inn x values =>
      have hchange : (fun j => r.change (.inValue j)) =
          fun j v => if j = i then r.newLiteral else v := by
        funext j v
        simp [WhereLiteralReplacement.change, hpath]
      simp only [map_ok_iff, replaceAt_ok_iff (fun _ _ => replaceLiteralLeaf_ok_iff),
        Atom.literalAt?, Atom.mapLiterals, hchange]
      grind
    | _ => simp [Atom.literalAt?]
  | constOperand =>
    cases a with
    | builtin op args =>
      by_cases hop : op = .addc ∨ op = .mulc
      · simp only [if_pos hop, map_ok_iff, replaceAt_terms_ok_iff, Atom.literalAt?,
          Atom.mapLiterals, mapConst_change, hpath, if_true]
        grind
      · simp [Atom.literalAt?, hop]
    | _ => simp [Atom.literalAt?]

/-! ## The replacements of one condition -/

/-- The literal a list of replacements gives an address; the first that names it decides. -/
def newLiteral? (rs : List WhereLiteralReplacement) (p : LiteralPath) : Option Value :=
  (rs.find? fun r => r.literalPath = p).map (·.newLiteral)

/-- The simultaneous change of a list of replacements. -/
def changes (rs : List WhereLiteralReplacement) (p : LiteralPath) (v : Value) : Value :=
  (newLiteral? rs p).getD v

theorem newLiteral?_eq_none {rs : List WhereLiteralReplacement} {p : LiteralPath}
    (h : p ∉ rs.map (·.literalPath)) : newLiteral? rs p = none := by
  unfold newLiteral?
  rw [Option.map_eq_none_iff, List.find?_eq_none]
  intro r hr hp
  exact h (List.mem_map.mpr ⟨r, hr, of_decide_eq_true hp⟩)

/-- The replacements that follow one do not touch its address. -/
theorem changes_cons {rs : List WhereLiteralReplacement}
    (h : r.literalPath ∉ rs.map (·.literalPath)) (p : LiteralPath) (v : Value) :
    changes rs p (r.change p v) = changes (r :: rs) p v := by
  unfold changes WhereLiteralReplacement.change
  by_cases hp : p = r.literalPath
  · subst hp
    rw [newLiteral?_eq_none h]
    simp [newLiteral?]
  · have hcons : newLiteral? (r :: rs) p = newLiteral? rs p := by
      unfold newLiteral?
      rw [List.find?_cons_of_neg (by simpa using Ne.symm hp)]
    rw [hcons, if_neg hp]

/-- A replacement at another address fits an atom before a replacement and after it. -/
theorem fitsAtom_change_iff {r' : WhereLiteralReplacement} (h : r'.literalPath ≠ r.literalPath) :
    r'.FitsAtom (a.mapLiterals r.change) ↔ r'.FitsAtom a := by
  rw [r'.fitsAtom_iff, r'.fitsAtom_iff, Atom.literalAt?_mapLiterals]
  have hsame : (fun v => r.change r'.literalPath v) = id := by
    funext v
    exact if_neg h
  rw [show r.change r'.literalPath = id from hsame, Option.map_id, id]

/-- **The replacements of one condition, made one after the other, are made at once.** -/
theorem replacements_ok_iff {rs : List WhereLiteralReplacement}
    (hpaths : (rs.map (·.literalPath)).Nodup) {b : Atom} :
    rs.foldlM applyLiteralReplacementToAtom a = .ok b ↔
      (∀ r ∈ rs, r.FitsAtom a) ∧ b = a.mapLiterals (changes rs) := by
  induction rs generalizing a with
  | nil =>
    have hid : a.mapLiterals (changes []) = a := Atom.mapLiterals_id (fun _ _ => rfl) a
    rw [hid]
    show Except.ok a = .ok b ↔ _
    simp [eq_comm]
  | cons r rs ih =>
    rw [List.map_cons, List.nodup_cons] at hpaths
    have hchanges : (a.mapLiterals r.change).mapLiterals (changes rs) =
        a.mapLiterals (changes (r :: rs)) := by
      rw [Atom.mapLiterals_mapLiterals]
      congr 1
      funext p v
      exact changes_cons hpaths.1 p v
    have hrest : (∀ r' ∈ rs, r'.FitsAtom (a.mapLiterals r.change)) ↔ ∀ r' ∈ rs, r'.FitsAtom a := by
      apply forall₂_congr
      intro r' hr'
      apply fitsAtom_change_iff
      intro heq
      exact hpaths.1 (heq ▸ List.mem_map.mpr ⟨r', hr', rfl⟩)
    rw [List.foldlM_cons, bind_ok_iff, List.forall_mem_cons]
    constructor
    · intro h
      rcases h with ⟨a', ha', h⟩
      rcases applyLiteralReplacementToAtom_ok_iff.mp ha' with ⟨hfits, rfl⟩
      rcases (ih hpaths.2).mp h with ⟨hall, hb⟩
      exact ⟨⟨hfits, hrest.mp hall⟩, hb.trans hchanges⟩
    · intro h
      rcases h with ⟨⟨hfits, hall⟩, hb⟩
      refine ⟨_, applyLiteralReplacementToAtom_ok_iff.mpr ⟨hfits, rfl⟩, ?_⟩
      exact (ih hpaths.2).mpr ⟨hrest.mpr hall, hb.trans hchanges.symm⟩

/-! ## A clause and its overlay -/

namespace Overlay

/-- The replacements of one condition. -/
def replacementsAt (ov : Overlay) (i j : Nat) : List WhereLiteralReplacement :=
  ov.literalReplacements.filter fun r => r.caseIndex = i ∧ r.conditionIndex = j

/-- A condition of the clause, with its new literals. -/
def condition (ov : Overlay) (i j : Nat) (a : Atom) : Atom :=
  a.mapLiterals (changes (ov.replacementsAt i j))

/-- The conditions added to a branch. -/
def additions (repr : Atom → String) (ov : Overlay) (i : Nat) : List Atom :=
  sortByRepr repr (additionsOf ov.addedConditions i)

/-- **A branch of the rewritten clause**: the conditions of the clause that are not disabled, each
under the index the clause gives it, and then the added ones, which are numbered on from there. -/
def branch (repr : Atom → String) (ov : Overlay) (i : Nat) (body : List Atom) : List Atom :=
  ((enabled ov.disabledLocators i body.zipIdx).map fun p => ov.condition i p.2 p.1) ++
  (enabled ov.disabledLocators i ((ov.additions repr i).zipIdx body.length)).map Prod.fst

/-- The rewritten clause. -/
def rewritten (repr : Atom → String) (ov : Overlay) : WhereExpr → WhereExpr
  | .and atoms => .and (ov.branch repr 0 atoms)
  | .or branches => .or (branches.zipIdx.map fun p => ov.branch repr p.2 p.1)

/-- The overlay names conditions of the clause, each literal it replaces is the one it expects, no
literal is replaced twice, and what it adds is well formed. An added condition may be disabled, under
its own number. -/
structure Fits (ov : Overlay) (bodies : List (List Atom)) : Prop where
  targets : (ov.literalReplacements.map (·.target)).Nodup
  literals : ∀ r ∈ ov.literalReplacements, r.oldLiteral.isLiteral = true ∧
    ∃ body, bodies[r.caseIndex]? = some body ∧
      ∃ a, body[r.conditionIndex]? = some a ∧ r.FitsAtom a
  added : ∀ c ∈ ov.addedConditions, c.caseIndex < bodies.length ∧ validateAtom c.atom = .ok ()
  disabled : ∀ l ∈ ov.disabledLocators, ∃ body, bodies[l.1]? = some body ∧
    l.2 < body.length + (additionsOf ov.addedConditions l.1).length

end Overlay

/-! ## The passes -/

theorem mem_zipIdx_iff {A : Type} {xs : List A} {x : A} {i : Nat} :
    (x, i) ∈ xs.zipIdx ↔ xs[i]? = some x := by
  rw [List.mk_mem_zipIdx_iff_getElem?]

theorem getD_of_getElem? {A : Type} {xs : List (List A)} {i : Nat} {x : List A}
    (h : xs[i]? = some x) : xs.getD i [] = x := by
  rw [List.getD_eq_getElem?_getD, h, Option.getD_some]

/-- The targets are different from each other and from those seen, and each is in range. -/
theorem checkTargets_ok_iff {bodies : List (List Atom)} {seen : List (Nat × Nat × LiteralPath)}
    {rs : List WhereLiteralReplacement} :
    checkTargets bodies seen rs = .ok () ↔ (rs.map (·.target)).Nodup ∧
      ∀ r ∈ rs, r.target ∉ seen ∧ ∃ body, bodies[r.caseIndex]? = some body ∧
        r.conditionIndex < body.length := by
  induction rs generalizing seen with
  | nil => simp [checkTargets]
  | cons r rs ih =>
    have hrange : (r.caseIndex < bodies.length ∧
        r.conditionIndex < (bodies.getD r.caseIndex []).length) ↔
        ∃ body, bodies[r.caseIndex]? = some body ∧ r.conditionIndex < body.length := by
      constructor
      · intro h
        refine ⟨bodies[r.caseIndex], List.getElem?_eq_getElem h.1, ?_⟩
        rw [← getD_of_getElem? (List.getElem?_eq_getElem h.1)]
        exact h.2
      · intro h
        rcases h with ⟨body, hbody, hlt⟩
        exact ⟨(List.getElem?_eq_some_iff.mp hbody).1, by rwa [getD_of_getElem? hbody]⟩
    rw [List.map_cons, List.nodup_cons, List.forall_mem_cons, ← hrange]
    simp only [checkTargets, bind_unit_ok_iff, require_ok_iff, decide_eq_true_eq, ih,
      List.mem_cons, not_or]
    constructor
    · intro h
      rcases h with ⟨hcase, hcond, hseen, hnodup, hrest⟩
      refine ⟨⟨?_, hnodup⟩, ⟨hseen, hcase, hcond⟩, fun r' hr' => ⟨(hrest r' hr').1.2, (hrest r' hr').2⟩⟩
      intro hmem
      rcases List.mem_map.mp hmem with ⟨r', hr', heq⟩
      exact (hrest r' hr').1.1 heq
    · intro h
      rcases h with ⟨⟨hnot, hnodup⟩, ⟨hseen, hcase, hcond⟩, hrest⟩
      refine ⟨hcase, hcond, hseen, hnodup, fun r' hr' => ⟨⟨?_, (hrest r' hr').1⟩, (hrest r' hr').2⟩⟩
      intro heq
      exact hnot (List.mem_map.mpr ⟨r', hr', heq⟩)

/-- The replacements of one condition differ in their paths. -/
theorem nodup_paths {ov : Overlay} (h : (ov.literalReplacements.map (·.target)).Nodup)
    (i j : Nat) : ((ov.replacementsAt i j).map (·.literalPath)).Nodup := by
  have hsub : ((ov.replacementsAt i j).map (·.target)).Nodup :=
    h.sublist (List.filter_sublist.map _)
  apply List.Nodup.map_on _ (List.Nodup.of_map _ hsub)
  intro r hr r' hr' heq
  have hat := of_decide_eq_true (List.mem_filter.mp hr).2
  have hat' := of_decide_eq_true (List.mem_filter.mp hr').2
  apply List.inj_on_of_nodup_map hsub hr hr'
  show (_, _, _) = (_, _, _)
  rw [hat.1, hat.2, hat'.1, hat'.2, heq]

/-- **The first pass replaces every literal it names, or none.** -/
theorem applyLiteralReplacements_ok_iff {ov : Overlay} {bodies out : List (List Atom)} :
    applyLiteralReplacements ov.literalReplacements bodies = .ok out ↔
      ((ov.literalReplacements.map (·.target)).Nodup ∧
        ∀ r ∈ ov.literalReplacements, r.oldLiteral.isLiteral = true ∧
          ∃ body, bodies[r.caseIndex]? = some body ∧
            ∃ a, body[r.conditionIndex]? = some a ∧ r.FitsAtom a) ∧
      out = bodies.zipIdx.map fun p => p.1.zipIdx.map fun q => ov.condition p.2 q.2 q.1 := by
  -- the loop over the conditions, once the targets are known to be different
  have hloop : (ov.literalReplacements.map (·.target)).Nodup →
      ((mapOk (fun p => mapOk (fun q =>
        (ov.literalReplacements.filter fun r => r.caseIndex = p.2 ∧
          r.conditionIndex = q.2).foldlM applyLiteralReplacementToAtom q.1)
            (List.zipIdx p.1)) bodies.zipIdx = .ok out) ↔
        (∀ p ∈ bodies.zipIdx, ∀ q ∈ p.1.zipIdx, ∀ r ∈ ov.replacementsAt p.2 q.2,
          r.FitsAtom q.1) ∧
        out = bodies.zipIdx.map fun p => p.1.zipIdx.map fun q => ov.condition p.2 q.2 q.1) := by
    intro hnodup
    apply mapOk_ok_iff_of
    intro p _ body'
    apply mapOk_ok_iff_of
    intro q _ a'
    exact replacements_ok_iff (nodup_paths hnodup p.2 q.2)
  have hvalid : each validateLiteralReplacement ov.literalReplacements = .ok () ↔
      ∀ r ∈ ov.literalReplacements, r.oldLiteral.isLiteral = true ∧
        r.newLiteral.isLiteral = true := by
    rw [each_ok_iff]
    simp only [validateLiteralReplacement, bind_unit_ok_iff, require_ok_iff]
  unfold applyLiteralReplacements
  rw [bind_unit_ok_iff, bind_unit_ok_iff, hvalid, checkTargets_ok_iff]
  constructor
  · intro h
    rcases h with ⟨hlit, ⟨hnodup, hrange⟩, h⟩
    rcases (hloop hnodup).mp h with ⟨hfits, rfl⟩
    refine ⟨⟨hnodup, ?_⟩, rfl⟩
    intro r hr
    rcases (hrange r hr).2 with ⟨body, hbody, hlt⟩
    refine ⟨(hlit r hr).1, body, hbody, body[r.conditionIndex], List.getElem?_eq_getElem hlt, ?_⟩
    exact hfits (body, r.caseIndex) (mem_zipIdx_iff.mpr hbody)
      (body[r.conditionIndex], r.conditionIndex)
      (mem_zipIdx_iff.mpr (List.getElem?_eq_getElem hlt)) r
      (List.mem_filter.mpr ⟨hr, decide_eq_true ⟨rfl, rfl⟩⟩)
  · intro h
    rcases h with ⟨⟨hnodup, hall⟩, rfl⟩
    refine ⟨?_, ⟨hnodup, ?_⟩, (hloop hnodup).mpr ⟨?_, rfl⟩⟩
    · intro r hr
      rcases hall r hr with ⟨hold, _, _, _, _, hfits⟩
      exact ⟨hold, hfits.new⟩
    · intro r hr
      rcases hall r hr with ⟨_, body, hbody, a, ha, _⟩
      exact ⟨List.not_mem_nil, body, hbody, (List.getElem?_eq_some_iff.mp ha).1⟩
    · intro p hp q hq r hr
      rcases List.mem_filter.mp hr with ⟨hr, hat⟩
      rcases hall r hr with ⟨_, body, hbody, a, ha, hfits⟩
      have hat := of_decide_eq_true hat
      rw [hat.1, mem_zipIdx_iff.mp (show (p.1, p.2) ∈ _ from hp)] at hbody
      rw [← Option.some.inj hbody, hat.2, mem_zipIdx_iff.mp (show (q.1, q.2) ∈ _ from hq)] at ha
      rwa [Option.some.inj ha]

/-- **The second pass adds every condition, or none.** -/
theorem applyAddedConditions_ok_iff {repr : Atom → String} {ov : Overlay}
    {bodies out : List (List Atom)} :
    applyAddedConditions repr ov.addedConditions bodies = .ok out ↔
      (∀ c ∈ ov.addedConditions, c.caseIndex < bodies.length ∧ validateAtom c.atom = .ok ()) ∧
      out = bodies.zipIdx.map fun p => p.1 ++ ov.additions repr p.2 := by
  unfold applyAddedConditions
  rw [bind_unit_ok_iff, each_ok_iff]
  simp only [bind_unit_ok_iff, require_ok_iff, decide_eq_true_eq, Except.ok.injEq]
  exact and_congr_right fun _ => eq_comm

/-- **The third pass disables every condition it names, or none.** -/
theorem applyDisabledLocators_ok_iff {ov : Overlay} {bodies out : List (List Atom)} :
    applyDisabledLocators ov.disabledLocators bodies = .ok out ↔
      (∀ l ∈ ov.disabledLocators, ∃ body, bodies[l.1]? = some body ∧ l.2 < body.length) ∧
      out = bodies.zipIdx.map fun p =>
        (p.1.zipIdx.filter fun q => (p.2, q.2) ∉ ov.disabledLocators).map Prod.fst := by
  unfold applyDisabledLocators
  rw [bind_unit_ok_iff, each_ok_iff]
  simp only [bind_unit_ok_iff, require_ok_iff, decide_eq_true_eq, Except.ok.injEq]
  apply and_congr
  · apply forall₂_congr
    intro l _
    constructor
    · intro h
      refine ⟨bodies[l.1], List.getElem?_eq_getElem h.1, ?_⟩
      rw [← getD_of_getElem? (List.getElem?_eq_getElem h.1)]
      exact h.2
    · intro h
      rcases h with ⟨body, hbody, hlt⟩
      exact ⟨(List.getElem?_eq_some_iff.mp hbody).1, by rwa [getD_of_getElem? hbody]⟩
  · exact eq_comm

/-! ## The three passes together -/

/-- Numbering what a numbered list is mapped to. -/
theorem zipIdx_map_zipIdx {A B : Type} (f : A × Nat → B) (xs : List A) :
    (xs.zipIdx.map f).zipIdx = xs.zipIdx.map fun p => (f p, p.2) := by
  apply List.ext_getElem?
  intro i
  simp only [List.getElem?_zipIdx, List.getElem?_map, Nat.zero_add]
  cases xs[i]? <;> rfl

theorem map_fst_zipIdx {A : Type} (xs : List A) : xs.zipIdx.map Prod.fst = xs :=
  List.zipIdx_map_fst 0 xs

/-- The conditions of a branch after the second pass, numbered, are the conditions of the clause
under their own numbers and then the added ones. -/
theorem filter_numbered {A : Type} (f : A × Nat → A) (xs ys : List A) (keep : Nat → Bool) :
    (((xs.zipIdx.map f ++ ys).zipIdx.filter fun p => keep p.2).map Prod.fst) =
      ((xs.zipIdx.filter fun p => keep p.2).map f) ++
        ((ys.zipIdx xs.length).filter fun p => keep p.2).map Prod.fst := by
  rw [List.zipIdx_append, List.filter_append, List.map_append, zipIdx_map_zipIdx,
    List.filter_map, List.map_map, List.length_map, List.length_zipIdx, Nat.zero_add]
  rfl

variable {repr : Atom → String} {ov : Overlay} {bodies out : List (List Atom)}

/-- A rewrite that leaves the bodies alone when its parameter is empty is always made. -/
theorem pass_eq {A : Type} {parameter : List A}
    {apply : List A → List (List Atom) → Except Err (List (List Atom))}
    (h : parameter = [] → apply parameter bodies = .ok bodies) :
    pass parameter apply bodies = apply parameter bodies := by
  unfold pass
  split
  · rename_i hempty
    exact (h (List.isEmpty_iff.mp hempty)).symm
  · rfl

theorem replacements_pass : pass ov.literalReplacements applyLiteralReplacements bodies =
    applyLiteralReplacements ov.literalReplacements bodies := by
  apply pass_eq
  intro hnil
  have hcond : ∀ i j a, ov.condition i j a = a := by
    intro i j a
    unfold Overlay.condition Overlay.replacementsAt
    rw [hnil]
    exact Atom.mapLiterals_id (fun _ _ => rfl) a
  rw [applyLiteralReplacements_ok_iff]
  refine ⟨by simp [hnil], ?_⟩
  simp only [hcond, map_fst_zipIdx]

theorem additions_pass : pass ov.addedConditions (applyAddedConditions repr) bodies =
    applyAddedConditions repr ov.addedConditions bodies := by
  apply pass_eq
  intro hnil
  have hadd : ∀ i, ov.additions repr i = [] := by
    intro i
    unfold Overlay.additions
    rw [hnil]
    rfl
  rw [applyAddedConditions_ok_iff]
  refine ⟨by simp [hnil], ?_⟩
  simp only [hadd, List.append_nil, map_fst_zipIdx]

theorem disabled_pass : pass ov.disabledLocators applyDisabledLocators bodies =
    applyDisabledLocators ov.disabledLocators bodies := by
  apply pass_eq
  intro hnil
  rw [applyDisabledLocators_ok_iff]
  exact ⟨by simp [hnil], by simp [hnil]⟩

/-- A body of the clause after the second pass. -/
def extended (repr : Atom → String) (ov : Overlay) (bodies : List (List Atom)) : List (List Atom) :=
  bodies.zipIdx.map fun p =>
    (p.1.zipIdx.map fun q => ov.condition p.2 q.2 q.1) ++ ov.additions repr p.2

/-- The condition a locator names after the second pass: one of the clause, or an added one. -/
theorem extended_range {i j : Nat} :
    (∃ body, (extended repr ov bodies)[i]? = some body ∧ j < body.length) ↔
      ∃ body, bodies[i]? = some body ∧
        j < body.length + (additionsOf ov.addedConditions i).length := by
  have hget : (extended repr ov bodies)[i]? = bodies[i]?.map fun body =>
      ((body.zipIdx.map fun q => ov.condition i q.2 q.1) ++ ov.additions repr i) := by
    unfold extended
    simp only [List.getElem?_map, List.getElem?_zipIdx, Option.map_map, Nat.zero_add]
    rfl
  have hlength : ∀ body : List Atom, ((body.zipIdx.map fun q => ov.condition i q.2 q.1) ++
      ov.additions repr i).length =
        body.length + (additionsOf ov.addedConditions i).length := by
    intro body
    rw [List.length_append, List.length_map, List.length_zipIdx]
    exact congrArg _ (List.length_insertionSort _ _)
  rw [hget]
  cases bodies[i]? with
  | none => simp
  | some body => simp [-List.length_append, hlength body]

/-- **An overlay is applied exactly when it fits, and then all of it is applied.** -/
theorem applyOverlay_ok_iff :
    applyOverlay repr ov bodies = .ok out ↔
      ov.Fits bodies ∧ out = bodies.zipIdx.map fun p => ov.branch repr p.2 p.1 := by
  have hfits : ov.Fits bodies ↔ (((ov.literalReplacements.map (·.target)).Nodup ∧
      ∀ r ∈ ov.literalReplacements, r.oldLiteral.isLiteral = true ∧
        ∃ body, bodies[r.caseIndex]? = some body ∧
          ∃ a, body[r.conditionIndex]? = some a ∧ r.FitsAtom a) ∧
      (∀ c ∈ ov.addedConditions, c.caseIndex < bodies.length ∧ validateAtom c.atom = .ok ()) ∧
      ∀ l ∈ ov.disabledLocators, ∃ body, (extended repr ov bodies)[l.1]? = some body ∧
        l.2 < body.length) := by
    simp only [extended_range]
    exact ⟨fun h => ⟨⟨h.targets, h.literals⟩, h.added, h.disabled⟩,
      fun h => ⟨h.1.1, h.1.2, h.2.1, h.2.2⟩⟩
  have hadded : (bodies.zipIdx.map fun p =>
      p.1.zipIdx.map fun q => ov.condition p.2 q.2 q.1).zipIdx.map
        (fun p => p.1 ++ ov.additions repr p.2) = extended repr ov bodies := by
    rw [zipIdx_map_zipIdx, List.map_map]
    rfl
  have hdisabled : (extended repr ov bodies).zipIdx.map (fun p =>
      (p.1.zipIdx.filter fun q => (p.2, q.2) ∉ ov.disabledLocators).map Prod.fst) =
        bodies.zipIdx.map fun p => ov.branch repr p.2 p.1 := by
    unfold extended
    rw [zipIdx_map_zipIdx, List.map_map]
    apply List.map_congr_left
    intro p _
    exact filter_numbered (fun q => ov.condition p.2 q.2 q.1) p.1 (ov.additions repr p.2)
      fun j => (p.2, j) ∉ ov.disabledLocators
  unfold applyOverlay
  rw [hfits, replacements_pass]
  simp only [additions_pass, disabled_pass, bind_ok_iff, applyLiteralReplacements_ok_iff,
    applyAddedConditions_ok_iff, applyDisabledLocators_ok_iff]
  constructor
  · intro h
    rcases h with ⟨_, ⟨hrep, rfl⟩, _, ⟨hadd, rfl⟩, hdis, rfl⟩
    rw [hadded] at hdis ⊢
    rw [List.length_map, List.length_zipIdx] at hadd
    exact ⟨⟨hrep, hadd, hdis⟩, hdisabled⟩
  · intro h
    rcases h with ⟨⟨hrep, hadd, hdis⟩, rfl⟩
    refine ⟨_, ⟨hrep, rfl⟩, _, ⟨?_, rfl⟩, ?_⟩
    · rw [List.length_map, List.length_zipIdx]
      exact hadd
    · rw [hadded]
      exact ⟨hdis, hdisabled.symm⟩

/-! ## The order of the sets -/

variable {ov' : Overlay}

/-- The clause passes the checks of the evaluator. -/
def Accepted (ctx : EvalCtx) (w : WhereExpr) : Prop :=
  whereAstGate ctx.astGateOn w = .ok () ∧ normalizeWhere w = .ok ()

instance (ctx : EvalCtx) (w : WhereExpr) : Decidable (Accepted ctx w) :=
  inferInstanceAs (Decidable (_ ∧ _))

theorem branches_rewritten (repr : Atom → String) (ov : Overlay) (w : WhereExpr) :
    (ov.rewritten repr w).branches = w.branches.zipIdx.map fun p => ov.branch repr p.2 p.1 := by
  cases w <;> rfl

variable {ctx : EvalCtx} {w : WhereExpr}

/-- **On an accepted clause an overlay that fits is evaluated as the rewritten clause is**, and one
that does not fit is refused. -/
theorem evaluateWhereOverlaid_eq (repr : Atom → String) (ov : Overlay) (hw : Accepted ctx w)
    (hrewritten : Accepted ctx (ov.rewritten repr w)) :
    (ov.Fits w.branches →
      evaluateWhereOverlaid ctx repr ov w = evaluateWhere ctx (ov.rewritten repr w)) ∧
    (¬ ov.Fits w.branches → ∃ e, evaluateWhereOverlaid ctx repr ov w = .error e) := by
  unfold evaluateWhereOverlaid
  rw [hw.1, hw.2]
  simp only [ok_bind]
  constructor
  · intro hfits
    have happly : applyOverlay repr ov w.branches = .ok (ov.rewritten repr w).branches := by
      rw [applyOverlay_ok_iff, branches_rewritten]
      exact ⟨hfits, rfl⟩
    unfold evaluateWhere
    rw [hrewritten.1, hrewritten.2, happly]
    rfl
  · intro hfits
    cases happly : applyOverlay repr ov w.branches with
    | error e => exact ⟨e, rfl⟩
    | ok out => exact absurd (applyOverlay_ok_iff.mp happly).1 hfits

/-- A filter of a condition's literal and a condition that is added, on a clause of two conditions:
the overlay fits, and is evaluated as the rewritten clause. -/
theorem regionOverlay_eq :
    evaluateWhereOverlaid (oneRow "region" [.str "bob", .str "eu"]) Atom.kind
      { literalReplacements := [⟨0, 1, .rhs, .str "us", .str "eu"⟩]
        addedConditions := [⟨0, .cmp .ne (.var "$p") (.const (.str "alice"))⟩]
        disabledLocators := [(0, 2)] }
      (.and [.pred "region" [.var "$p", .var "$r"], .cmp .eq (.var "$r") (.const (.str "us"))]) =
    evaluateWhere (oneRow "region" [.str "bob", .str "eu"])
      (.and [.pred "region" [.var "$p", .var "$r"], .cmp .eq (.var "$r") (.const (.str "eu"))]) := by
  refine (evaluateWhereOverlaid_eq _ _ (by decide +kernel) (by decide +kernel)).1 ?_
  refine ⟨by decide, ?_, ?_, ?_⟩
  · intro r hr
    rw [List.mem_singleton.mp hr]
    exact ⟨rfl, _, rfl, _, rfl, ⟨_, rfl, rfl, rfl⟩, rfl⟩
  · intro c hc
    rw [List.mem_singleton.mp hc]
    exact ⟨by decide, rfl⟩
  · intro l hl
    rw [List.mem_singleton.mp hl]
    exact ⟨_, rfl, by decide⟩

/-- The clause is checked before the overlay is applied: disabling the one condition the checks
refuse does not get the clause past them. -/
theorem unbound_condition_refused :
    ¬ (Accepted (oneRow "region" [.str "bob", .str "eu"])
        (Overlay.rewritten Atom.kind { disabledLocators := [(0, 1)] }
          (.and [.pred "region" [.var "$p", .var "$r"], .cmp .gt (.var "$n") (.const (.int 5))])) →
      evaluateWhereOverlaid (oneRow "region" [.str "bob", .str "eu"]) Atom.kind
          { disabledLocators := [(0, 1)] }
          (.and [.pred "region" [.var "$p", .var "$r"], .cmp .gt (.var "$n") (.const (.int 5))]) =
        evaluateWhere (oneRow "region" [.str "bob", .str "eu"])
          (Overlay.rewritten Atom.kind { disabledLocators := [(0, 1)] }
            (.and [.pred "region" [.var "$p", .var "$r"],
              .cmp .gt (.var "$n") (.const (.int 5))]))) := by
  decide +kernel

end FactGraph.Rules
