import FactGraph.Authoring.Head
import FactGraph.Authoring.Lowering
import FactGraph.Protocol.Canonical

/-!
# The terms of a compiled head

What the terms of a compiled head are to be, position by position. A term of a payload has one compiled
term (`TermOf`): a variable stays, an identifier becomes the variable of that name, any other literal
stays. The variable of an entity is the one that stands first in the atoms of its type.

**An accepted derivation has the terms of its authored head** (`compiled_head_terms`), in the order of
the schema where the head is lowered against it, and in the authored order otherwise.
-/

namespace FactGraph.Authoring

open Protocol Entity Check

/-! ## Terms -/

/-- The compiled term of an authored text. -/
inductive TextTerm : String → Raw → Prop
  | variable {s : String} {cs : List Char} : s.toList = '$' :: cs → isIdent cs = true → TextTerm s (.str s)
  | identifier {s : String} : isIdent s.toList = true → TextTerm s (.str ("$" ++ s))
  | literal {s : String} : s.toList.head? ≠ some '$' → isIdent s.toList = false → TextTerm s (.str s)

/-- The compiled term of an authored one. -/
inductive TermOf : Raw → Raw → Prop
  | text {s : String} {t : Raw} : TextTerm s t → TermOf (.leaf (.str s)) t
  | int (i : Int) : TermOf (.leaf (.int i)) (.leaf (.int i))
  | bool (b : Bool) : TermOf (.leaf (.bool b)) (.leaf (.bool b))
  | none : TermOf (.leaf .none) (.leaf .none)
  | list {xs ys : List Raw} : List.Forall₂ TermOf xs ys → TermOf (.list xs) (.list ys)
  | tuple {xs ys : List Raw} : List.Forall₂ TermOf xs ys → TermOf (.tuple xs) (.tuple ys)

theorem textTerm_of_normalize {message path s : String} {t : Raw}
    (h : normalizeText message path s = .ok t) : TextTerm s t := by
  unfold normalizeText at h
  split at h
  · rename_i cs hcs
    split at h
    · rename_i hident
      cases h
      exact .variable hcs hident
    · cases h
  · rename_i cs hdollar
    split at h
    · rename_i hident
      cases h
      exact .identifier hident
    · rename_i hident
      cases h
      refine .literal (fun hhead => ?_) (Bool.not_eq_true _ ▸ hident)
      cases hcs : s.toList with
      | nil => rw [hcs] at hhead; cases hhead
      | cons c cs =>
        rw [hcs] at hhead
        cases hhead
        exact hdollar cs hcs

mutual

theorem termOf_of_normalize : ∀ (x : Raw) {path : String} {t : Raw},
    normalizeHeadKwargValue path x = .ok t → TermOf x t
  | .leaf (.str s), _, _, h => .text (textTerm_of_normalize h)
  | .leaf (.int i), _, _, h => by cases h; exact .int i
  | .leaf (.bool b), _, _, h => by cases h; exact .bool b
  | .leaf .none, _, _, h => by cases h; exact .none
  | .list items, _, _, h => by
    rw [normalizeHeadKwargValue, bind_ok_iff] at h
    obtain ⟨out, hout, heq⟩ := h
    cases heq
    exact .list (termsOf_of_normalize items hout)
  | .tuple items, _, _, h => by
    rw [normalizeHeadKwargValue, bind_ok_iff] at h
    obtain ⟨out, hout, heq⟩ := h
    cases heq
    exact .tuple (termsOf_of_normalize items hout)
  | .leaf (.float _), _, _, h | .leaf (.bytes _), _, _, h | .other _, _, _, h => by cases h

theorem termsOf_of_normalize : ∀ (xs : List Raw) {path : String} {ts : List Raw},
    normalizeHeadKwargValues path xs = .ok ts → List.Forall₂ TermOf xs ts
  | [], _, _, h => by cases h; exact .nil
  | x :: xs, _, _, h => by
    simp only [normalizeHeadKwargValues, bind_ok_iff] at h
    obtain ⟨t, ht, ts, hts, heq⟩ := h
    cases heq
    exact .cons (termOf_of_normalize x ht) (termsOf_of_normalize xs hts)

end

theorem termOf_of_compileHeadVar {path : String} {x t : Raw} (h : compileHeadVar path x = .ok t) :
    TermOf x t := by
  unfold compileHeadVar at h
  split at h
  · exact .text (textTerm_of_normalize h)
  · cases h
    exact .int _
  · cases h
    exact .bool _
  · cases h

/-! ## Arguments -/

/-- The arguments of a compiled head are those of the payload. -/
def ArgsOf : List (String × Raw) → List (String × Raw) → Prop :=
  List.Forall₂ fun authored compiled => authored.1 = compiled.1 ∧ TermOf authored.2 compiled.2

theorem argsOf_get {kwargs compiled : List (String × Raw)} (h : ArgsOf kwargs compiled) {key : String}
    {t : Raw} (ht : Dict.get? compiled key = some t) : ∃ x, Dict.get? kwargs key = some x ∧ TermOf x t := by
  induction h with
  | nil => cases ht
  | @cons x y kwargs compiled hxy _ ih =>
    obtain ⟨k, x⟩ := x
    obtain ⟨k', y⟩ := y
    obtain ⟨rfl, hterm⟩ := hxy
    rw [Dict.get?_cons] at ht ⊢
    split at ht
    · rename_i hkey
      cases ht
      rw [if_pos hkey]
      exact ⟨x, rfl, hterm⟩
    · rename_i hkey
      rw [if_neg hkey]
      exact ih ht

/-- A compiled head, against its payload. -/
structure HeadOf (raw : RawHead) (head : Head) : Prop where
  entityType : raw.entityType = some head.entityType
  callee : match head.callee with
    | .predRef field => raw.field = some field
    | .entityType => raw.calleeKind = some "entity_type"
  args : ∃ kwargs, raw.kwargs = some kwargs ∧ ArgsOf kwargs head.kwargs

theorem nonEmptyText_ok {value : Option String} {message path s : String}
    (h : nonEmptyText value message path = .ok s) : value = some s := by
  unfold nonEmptyText at h
  split at h
  · split at h
    · cases h
    · cases h
      rfl
  · cases h

theorem headOf_of_compile {raw : RawHead} {head : Head} (h : compileHeadCall (some raw) = .ok head) :
    HeadOf raw head := by
  unfold compileHeadCall at h
  simp only [bind_ok_iff] at h
  obtain ⟨⟨⟩, -, ⟨⟩, hkind, entityType, hentity, callee, hcallee, ⟨⟩, hargs, kwargs, hkwargs, heq⟩ := h
  cases heq
  refine ⟨nonEmptyText_ok hentity, ?_, ?_⟩
  · unfold compileCallee at hcallee
    split at hcallee
    · rw [bind_ok_iff] at hcallee
      obtain ⟨field, hfield, heq⟩ := hcallee
      cases heq
      exact nonEmptyText_ok hfield
    · rename_i hother
      cases hcallee
      rw [require_ok_iff, decide_eq_true_eq] at hkind
      exact hkind.resolve_left hother
  · cases hraw : raw.kwargs with
    | none =>
      rw [hraw] at hargs
      cases hargs
    | some authored =>
      rw [hraw, Option.getD_some, mapOk_ok_iff] at hkwargs
      refine ⟨authored, rfl, hkwargs.imp fun x y hxy => ?_⟩
      unfold compileKwarg at hxy
      rw [bind_unit_ok_iff, bind_ok_iff] at hxy
      obtain ⟨-, value, hvalue, heq⟩ := hxy
      cases heq
      exact ⟨rfl, termOf_of_normalize _ hvalue⟩

/-! ## The variable of an entity -/

/-- The variable stands first in an atom over a predicate of the type, under any number of negations. -/
inductive StandsFirst (owners : List (String × String)) (entityType : String) : List Atom → String → Prop
  | pred {body : List Atom} {predId : String} {terms : List Datum} {name : String} :
      .pred predId terms ∈ body → Dict.get? owners predId = some entityType → headVar? terms = some name →
      StandsFirst owners entityType body ("$" ++ name)
  | not {body inner : List Atom} {var : String} :
      .not inner ∈ body → StandsFirst owners entityType inner var → StandsFirst owners entityType body var
  | notCases {body inner : List Atom} {bodies : List (List Atom)} {var : String} :
      .notCases bodies ∈ body → inner ∈ bodies → StandsFirst owners entityType inner var →
      StandsFirst owners entityType body var

/-- The variable stands for an entity of the type in a clause. -/
def Names (doc : SchemaDoc) (w : Where) (entityType var : String) : Prop :=
  ∃ body ∈ w.bodies, StandsFirst (ownerByPred doc) entityType body var

/-- It does, and no other does. -/
def Anchor (doc : SchemaDoc) (w : Where) (entityType var : String) : Prop :=
  Names doc w entityType var ∧ ∀ other, Names doc w entityType other → other = var

section

variable {owners : List (String × String)} {entityType : String}

theorem standsFirst_cons {a : Atom} {as : List Atom} {var : String}
    (h : StandsFirst owners entityType (a :: as) var) :
    StandsFirst owners entityType [a] var ∨ StandsFirst owners entityType as var := by
  cases h with
  | pred hmem howner hvar =>
    rcases List.mem_cons.mp hmem with rfl | hmem
    · exact .inl (.pred List.mem_cons_self howner hvar)
    · exact .inr (.pred hmem howner hvar)
  | not hmem hinner =>
    rcases List.mem_cons.mp hmem with rfl | hmem
    · exact .inl (.not List.mem_cons_self hinner)
    · exact .inr (.not hmem hinner)
  | notCases hmem hcase hinner =>
    rcases List.mem_cons.mp hmem with rfl | hmem
    · exact .inl (.notCases List.mem_cons_self hcase hinner)
    · exact .inr (.notCases hmem hcase hinner)

theorem standsFirst_mono {as bs : List Atom} (hsub : as ⊆ bs) {var : String}
    (h : StandsFirst owners entityType as var) : StandsFirst owners entityType bs var := by
  cases h with
  | pred hmem howner hvar => exact .pred (hsub hmem) howner hvar
  | not hmem hinner => exact .not (hsub hmem) hinner
  | notCases hmem hcase hinner => exact .notCases (hsub hmem) hcase hinner

mutual

theorem mem_walkAtom_iff : ∀ (a : Atom) {var : String},
    var ∈ walkAtom owners entityType a ↔ StandsFirst owners entityType [a] var
  | .pred predId terms, var => by
    rw [walkAtom]
    constructor
    · intro h
      split at h
      · rename_i howner
        obtain ⟨name, hname, rfl⟩ := Option.map_eq_some_iff.mp (Option.mem_toList.mp h)
        exact .pred List.mem_cons_self howner hname
      · cases h
    · intro h
      cases h with
      | pred hmem howner hvar =>
        cases List.mem_singleton.mp hmem
        rw [if_pos howner, hvar]
        exact List.mem_cons_self
      | not hmem _ | notCases hmem _ _ => cases List.mem_singleton.mp hmem
  | .not body, var => by
    rw [walkAtom, mem_walkBody_iff body]
    constructor
    · exact .not List.mem_cons_self
    · intro h
      cases h with
      | pred hmem _ _ | notCases hmem _ _ => cases List.mem_singleton.mp hmem
      | not hmem hinner =>
        cases List.mem_singleton.mp hmem
        exact hinner
  | .notCases bodies, var => by
    rw [walkAtom, mem_walkCases_iff bodies]
    constructor
    · rintro ⟨inner, hcase, hinner⟩
      exact .notCases List.mem_cons_self hcase hinner
    · intro h
      cases h with
      | pred hmem _ _ | not hmem _ => cases List.mem_singleton.mp hmem
      | notCases hmem hcase hinner =>
        cases List.mem_singleton.mp hmem
        exact ⟨_, hcase, hinner⟩
  | .attrEq _ _, var | .compare _ _ _, var | .other _, var => by
    rw [walkAtom]
    constructor
    · intro h
      cases h
    · intro h
      cases h with
      | pred hmem _ _ | not hmem _ | notCases hmem _ _ => cases List.mem_singleton.mp hmem

theorem mem_walkBody_iff : ∀ (body : List Atom) {var : String},
    var ∈ walkBody owners entityType body ↔ StandsFirst owners entityType body var
  | [], var => by
    constructor
    · intro h
      cases h
    · intro h
      cases h with
      | pred hmem _ _ | not hmem _ | notCases hmem _ _ => cases hmem
  | a :: as, var => by
    rw [walkBody, List.mem_append, mem_walkAtom_iff a, mem_walkBody_iff as]
    constructor
    · rintro (h | h)
      · exact standsFirst_mono (by simp) h
      · exact standsFirst_mono (List.subset_cons_self a as) h
    · exact standsFirst_cons

theorem mem_walkCases_iff : ∀ (bodies : List (List Atom)) {var : String},
    var ∈ walkCases owners entityType bodies ↔
      ∃ body ∈ bodies, StandsFirst owners entityType body var
  | [], var => by simp [walkCases]
  | body :: bodies, var => by
    rw [walkCases, List.mem_append, mem_walkBody_iff body, mem_walkCases_iff bodies,
      List.exists_mem_cons_iff]

end

theorem mem_walkWhere_iff {doc : SchemaDoc} {w : Where} {var : String} :
    var ∈ walkWhere (ownerByPred doc) entityType w ↔ Names doc w entityType var := by
  unfold Names
  cases w with
  | body atoms =>
    rw [walkWhere, mem_walkBody_iff]
    exact ⟨fun h => ⟨atoms, List.mem_cons_self, h⟩, fun ⟨_, hmem, h⟩ => List.mem_singleton.mp hmem ▸ h⟩
  | cases bodies =>
    exact mem_walkCases_iff bodies

/-- **The inferred variable is the one variable of the type.** -/
theorem anchor_of_infer {doc : SchemaDoc} {w : Where} {var : String}
    (h : inferUniqueEntityBindingVar doc w entityType = .ok var) : Anchor doc w entityType var := by
  unfold inferUniqueEntityBindingVar at h
  split at h
  · rename_i v hdedup
    cases h
    have hmem : ∀ other, other ∈ walkWhere (ownerByPred doc) entityType w ↔ other = var := by
      intro other
      rw [← List.mem_dedup, hdedup, List.mem_singleton]
    exact ⟨mem_walkWhere_iff.mp ((hmem var).mpr rfl),
      fun other hother => (hmem other).mp (mem_walkWhere_iff.mpr hother)⟩
  · cases h
  · cases h

end

/-! ## Heads lowered against a schema -/

/-- The target and the terms of a head call, in the order of the schema. -/
inductive SchemaTerms (lower : String → String) (doc : SchemaDoc) (w : Where) (raw : RawHead) :
    String → List Raw → Prop
  | field {entityType field var first argName key : String} {pred : PredicateDoc}
      {kwargs : List (String × Raw)} {authored value : Raw} :
      raw.entityType = some entityType → raw.field = some field → raw.kwargs = some kwargs →
      findPredForHead lower doc entityType field = .ok pred →
      pred.argSpecs.map ArgSpec.name = [first, argName] →
      Anchor doc w entityType var →
      key ∈ [field, "value", argName] → Dict.get? kwargs key = some authored → TermOf authored value →
      SchemaTerms lower doc w raw pred.predId [.str var, value]
  | entity {entityType var : String} {names : List String} {kwargs : List (String × Raw)}
      {terms : List Raw} :
      raw.calleeKind = some "entity_type" → raw.entityType = some entityType →
      raw.kwargs = some kwargs → entityFieldNames doc entityType = .ok names →
      Anchor doc w entityType var →
      List.Forall₂ (fun name term => ∃ authored, Dict.get? kwargs name = some authored ∧
        TermOf authored term) names terms →
      SchemaTerms lower doc w raw entityType terms

/-- The value is one of those under the keys. -/
theorem fieldValue_ok {field argName : String} {kwargs : List (String × Raw)} {value : Raw}
    (h : fieldValue field argName kwargs = .ok value) :
    ∃ key ∈ [field, "value", argName], Dict.get? kwargs key = some value := by
  unfold fieldValue at h
  dsimp only at h
  split at h
  · cases h
  · rename_i v others hvalues
    rw [bind_unit_ok_iff, bind_unit_ok_iff] at h
    obtain ⟨-, -, heq⟩ := h
    cases heq
    have hmem : value ∈ [field, "value", argName].filterMap (Dict.get? kwargs) := by
      rw [hvalues]
      exact List.mem_cons_self
    exact List.mem_filterMap.mp hmem

/-- The names of the arguments of a predicate. -/
theorem argNames_ok {message : String} {path : ArgSpec × Nat → String} {specs : List ArgSpec}
    {names : List String}
    (h : mapOk (fun spec => nonEmptyText (some spec.1.name) message (path spec)) specs.zipIdx = .ok names) :
    specs.map ArgSpec.name = names := by
  rw [mapOk_ok_iff] at h
  have heq : (specs.zipIdx.map Prod.fst).map ArgSpec.name = names := by
    rw [List.map_map, ← List.forall₂_eq_eq_eq, List.forall₂_map_left_iff]
    exact h.imp fun spec name hname => Option.some.inj (nonEmptyText_ok hname)
  rwa [List.zipIdx_map_fst] at heq

theorem schemaTerms_of_field {lower : String → String} {doc : SchemaDoc} {w : Where} {raw : RawHead}
    {head : Head} {field target : String} {terms : List Raw} (hhead : HeadOf raw head)
    (hcallee : head.callee = .predRef field)
    (h : lowerFactHeadWithSchema lower doc w head field = .ok (target, terms)) :
    SchemaTerms lower doc w raw target terms := by
  unfold lowerFactHeadWithSchema at h
  simp only [bind_ok_iff] at h
  obtain ⟨pred, hpred, ⟨⟩, -, ⟨⟩, -, argNames, hnames, h⟩ := h
  split at h
  · rename_i first argName
    rw [bind_unit_ok_iff, bind_ok_iff] at h
    obtain ⟨-, value, hvalue, h⟩ := h
    rw [bind_ok_iff] at h
    obtain ⟨var, hvar, heq⟩ := h
    cases heq
    obtain ⟨key, hkey, hget⟩ := fieldValue_ok hvalue
    obtain ⟨kwargs, hkwargs, hargs⟩ := hhead.args
    obtain ⟨authored, hauthored, hterm⟩ := argsOf_get hargs hget
    have hfield := hhead.callee
    rw [hcallee] at hfield
    exact .field hhead.entityType hfield hkwargs hpred (argNames_ok hnames) (anchor_of_infer hvar)
      hkey hauthored hterm
  · cases h

theorem schemaTerms_of_entity {lower : String → String} {doc : SchemaDoc} {w : Where} {raw : RawHead}
    {head : Head} {target : String} {terms : List Raw} (hhead : HeadOf raw head)
    (hcallee : head.callee = .entityType)
    (h : lowerEntityHeadWithSchema doc w head = .ok (target, terms)) :
    SchemaTerms lower doc w raw target terms := by
  unfold lowerEntityHeadWithSchema at h
  simp only [bind_ok_iff] at h
  obtain ⟨⟨⟩, -, var, hvar, names, hnames, ⟨⟩, hmissing, ⟨⟩, -, heq⟩ := h
  cases heq
  obtain ⟨kwargs, hkwargs, hargs⟩ := hhead.args
  have hkind := hhead.callee
  rw [hcallee] at hkind
  refine .entity hkind hhead.entityType hkwargs hnames (anchor_of_infer hvar) ?_
  rw [List.forall₂_map_right_iff, List.forall₂_same]
  intro name hname
  -- no field is missing
  rw [require_ok_iff, List.isEmpty_iff, List.filter_eq_nil_iff] at hmissing
  have hhas := hmissing name hname
  rw [Bool.not_eq_true', Bool.not_eq_false] at hhas
  obtain ⟨term, hterm⟩ := Dict.mem_keys_iff.mp (Dict.has_iff.mp hhas)
  rw [hterm]
  exact argsOf_get hargs hterm

/-! ## Derivations -/

/-- The target that a payload gives, in `target_pred_id`, `target` or `emits`. -/
def Payload.givenTarget (p : Payload) : Option String :=
  explicitTarget p ((compileEmits p.emits).toOption.getD none)

/-- **What the terms of a compiled head are.** -/
structure HeadTerms (lower : String → String) (doc : SchemaDoc) (p : Payload) (out : Derivation) : Prop where
  /-- Terms that are given stay, position by position. -/
  given : p.hasHeadVars = true →
    ∃ items, (p.headVars <|> p.select) = some (.list items) ∧ List.Forall₂ TermOf items out.headVars
  /-- A head call has its terms in the order of the schema, and given terms equal these; unless a target
  is given as well. -/
  lowered : ∀ raw, p.head = some (some raw) → p.hasHeadVars = false ∨ p.givenTarget = none →
    ∃ terms, SchemaTerms lower doc out.where_ raw out.targetPredId terms ∧
      if p.hasHeadVars = true then rawsEqv out.headVars terms = true else out.headVars = terms
  /-- The terms of `emits` are taken as they are, where there is nothing else. -/
  emitted : p.head = none → p.hasHeadVars = false →
    ∃ raw, p.emits = some (some raw) ∧ raw.vars = some out.headVars

theorem rawHeadVars_ok {p : Payload} {raw : Raw × String} (h : rawHeadVars p = .ok raw) :
    (p.headVars <|> p.select) = some raw.1 := by
  unfold rawHeadVars at h
  split at h
  · cases h
  · rename_i hheadVars hselect
    cases h
    rw [hheadVars]
    rfl
  · rename_i hheadVars hselect
    cases h
    rw [hheadVars, hselect]
    rfl
  · rename_i hheadVars hselect
    rw [bind_unit_ok_iff] at h
    cases h.2
    rw [hheadVars]
    rfl

theorem compileHeadVars_ok {p : Payload} {headVars : List Raw} (h : compileHeadVars p = .ok headVars) :
    ∃ items, (p.headVars <|> p.select) = some (.list items) ∧ List.Forall₂ TermOf items headVars := by
  unfold compileHeadVars at h
  rw [bind_ok_iff] at h
  obtain ⟨raw, hraw, h⟩ := h
  have hgiven := rawHeadVars_ok hraw
  split at h
  · rename_i item items hlist
    rw [hlist] at hgiven
    refine ⟨item :: items, hgiven, ?_⟩
    rw [mapOk_ok_iff] at h
    have hterms := h.imp fun x t ht => termOf_of_compileHeadVar ht
    rwa [← List.forall₂_map_left_iff (f := Prod.fst) (R := TermOf), List.zipIdx_map_fst] at hterms
  · cases h

theorem compileEmits_ok {emits : Option (Option RawEmits)} {target : String} {vars : List Raw}
    (h : compileEmits emits = .ok (some (target, vars))) :
    ∃ raw, emits = some (some raw) ∧ raw.vars = some vars := by
  unfold compileEmits at h
  split at h
  · cases h
  · cases h
  · rename_i raw
    simp only [bind_ok_iff] at h
    obtain ⟨name, -, ⟨⟩, hvars, heq⟩ := h
    cases heq
    refine ⟨raw, rfl, ?_⟩
    cases hraw : raw.vars with
    | none =>
      rw [hraw] at hvars
      cases hvars
    | some vars => rfl

theorem schemaTerms_of_lower {lower : String → String} {doc : SchemaDoc} {w : Where} {raw : RawHead}
    {head : Head} {target : String} {terms : List Raw} (hhead : HeadOf raw head)
    (h : lowerHeadWithSchema lower doc w head = .ok (target, terms)) :
    SchemaTerms lower doc w raw target terms := by
  unfold lowerHeadWithSchema at h
  split at h
  · rename_i field hcallee
    exact schemaTerms_of_field hhead hcallee h
  · rename_i hcallee
    exact schemaTerms_of_entity hhead hcallee h

/-- A lowered head has the target of the derivation. -/
theorem resolveTarget_ok {p : Payload} {head : Option Head} {emits : Option (String × List Raw)}
    {lowered : String × List Raw} {given : Option String} {target : String}
    (h : resolveTarget p head emits (some lowered) given = .ok target) : target = lowered.1 := by
  unfold resolveTarget at h
  simp only [bind_ok_iff] at h
  obtain ⟨resolved, -, ⟨⟩, hlowered, ⟨⟩, -, heq⟩ := h
  cases heq
  rw [require_ok_iff, Option.all_some, decide_eq_true_eq] at hlowered
  exact hlowered

/-- **An accepted derivation has the terms of its authored head.** -/
theorem compiled_head_terms {lower : String → String} {doc : SchemaDoc} {p : Payload} {out : Derivation}
    (h : compileAuthoringDerivationV1 lower (some doc) p = .ok out) : HeadTerms lower doc p out := by
  unfold compileAuthoringDerivationV1 at h
  simp only [bind_ok_iff] at h
  obtain ⟨derivationId, -, version, -, description, -, tags, -, ⟨⟩, -, w, hwhere, head, hhead, ⟨⟩, -, emits,
    hemits, lowered, hlowered, target, htarget, headVars, hheadVars, heq⟩ := h
  cases heq
  have hgivenTarget : p.givenTarget = explicitTarget p emits := by
    unfold Payload.givenTarget
    rw [hemits]
    rfl
  refine ⟨fun hgiven => ?_, fun raw hraw hlower => ?_, fun hnone hgiven => ?_⟩
  · unfold resolveHeadVars at hheadVars
    rw [if_pos hgiven, bind_ok_iff] at hheadVars
    obtain ⟨given, hcompile, hrest⟩ := hheadVars
    rw [bind_unit_ok_iff, bind_unit_ok_iff] at hrest
    cases hrest.2.2
    exact compileHeadVars_ok hcompile
  · unfold compileHead at hhead
    rw [hraw, Protocol.map_ok_iff] at hhead
    obtain ⟨call, hcall, rfl⟩ := hhead
    have hcond : (explicitTarget p emits).isNone = true ∨ p.hasHeadVars = false := by
      rw [← hgivenTarget, Option.isNone_iff_eq_none]
      exact hlower.symm
    unfold lowerHead at hlowered
    dsimp only at hlowered
    rw [if_pos hcond, Protocol.map_ok_iff] at hlowered
    obtain ⟨⟨target', terms⟩, hterms, rfl⟩ := hlowered
    have htarget' := resolveTarget_ok htarget
    subst htarget'
    refine ⟨terms, schemaTerms_of_lower (headOf_of_compile hcall) hterms, ?_⟩
    unfold resolveHeadVars at hheadVars
    split at hheadVars
    · rename_i hgiven
      rw [if_pos hgiven]
      simp only [bind_ok_iff] at hheadVars
      obtain ⟨given, -, ⟨⟩, -, ⟨⟩, hsame, heq⟩ := hheadVars
      cases heq
      rw [require_ok_iff, Option.all_some] at hsame
      exact hsame
    · rename_i hgiven
      rw [if_neg hgiven]
      cases hheadVars
      rfl
  · unfold compileHead at hhead
    rw [hnone] at hhead
    cases hhead
    cases hlowered
    unfold resolveHeadVars at hheadVars
    rw [if_neg (by rw [hgiven]; decide)] at hheadVars
    cases emits with
    | none =>
      -- there are no terms to read
      obtain ⟨items, hitems, -⟩ := compileHeadVars_ok hheadVars
      unfold Payload.hasHeadVars at hgiven
      rw [Bool.or_eq_false_iff, Option.isSome_eq_false_iff, Option.isSome_eq_false_iff,
        Option.isNone_iff_eq_none, Option.isNone_iff_eq_none] at hgiven
      rw [hgiven.1, hgiven.2] at hitems
      cases hitems
    | some emitted =>
      cases hheadVars
      exact compileEmits_ok hemits

/-! ## The status of a person -/

/-- Persons with a status. -/
def personSchema : SchemaDoc where
  entities := [{ entityType := "Person", identityFields := [{ name := "person_id", typeDomain := "string" }] }]
  predicates :=
    [{ predId := "person:exists", ownerType := some "Person", cardinality := some "single",
       argSpecs := [⟨"person", "entity_ref"⟩], groupKeyIndexes := [], entityExists := some true },
     { predId := "person:status", ownerType := some "Person", pyFieldName := some "status",
       cardinality := some "single", argSpecs := [⟨"person", "entity_ref"⟩, ⟨"status", "string"⟩],
       groupKeyIndexes := [] }]

/-- There is a person `$p`. -/
def somePerson : Where := .body [.pred "person:exists" [.leaf (.str "$p")]]

/-- Every person has the status. -/
def statusPayload (status : String) : Payload where
  derivationId := some (.str "status.rule")
  where_ := some (some somePerson)
  head := some (some { calleeKind := some "pred_ref", entityType := some "Person", field := some "status",
                       kwargs := some [("status", .str status)] })

/-- What the derivation of a status is compiled to. -/
def statusDerivation (status : Raw) : Derivation where
  derivationId := "status.rule"
  version := "v1"
  targetPredId := "person:status"
  headVars := [.str "$p", status]
  where_ := somePerson
  head := some ⟨.predRef "status", "Person", [("status", status)]⟩
  description := none
  tags := none

/-- A status of two words stays. -/
theorem status_stays : HeadTerms id personSchema (statusPayload "on hold") (statusDerivation (.str "on hold")) :=
  compiled_head_terms (by rfl)

/-- A status of one word is taken for a variable. -/
theorem status_becomes_variable :
    compileAuthoringDerivationV1 id (some personSchema) (statusPayload "active") =
        .ok (statusDerivation (.str "$active")) ∧
      (statusDerivation (.str "$active")).headVars ≠ [.str "$p", .str "active"] := by
  refine ⟨rfl, fun h => ?_⟩
  have hlast := (List.cons.inj (List.cons.inj h).2).1
  exact absurd (Scalar.str.inj (Raw.leaf.inj hlast)) (by decide)

end FactGraph.Authoring
