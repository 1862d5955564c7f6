import Mathlib.Data.List.Flatten
import FactGraph.Authoring.Where

/-!
# Which field accesses the lowering resolves

A sugar atom reads a field of a variable that is declared in its own body or in one around it. The
lowering is to put the schema predicate of the type and the field in its place. What each atom of a
body becomes is the chunk the loop appends for it, so the property is about a body and its chunks
(`ResolvedBody`).

Of a negation of several cases the loop makes one of a body: its cases are strung together. That is
not what is asked here, so what such an atom becomes is compared by the atoms of the negation
(`negated?`).

The loop knows of a variable what the atoms before it in the same body say, and never enters the
filter of an aggregate. `resolvedBody_iff` says exactly when that is enough.
-/

namespace FactGraph.Authoring

open Protocol Entity Check

section

variable (m : RecordMeta) (lower : String → String)

/-! ## The property -/

/-- The variable an atom declares, with its type: the atom is over the existence predicate of the
type, by its schema id or by its sugar. -/
def declares : Atom → Option (String × String)
  | .pred predId terms =>
      match headVar? terms, Dict.get? m.typeByExistsPred predId with
      | none, _ => none
      | some var, some type => some (var, type)
      | some var, none =>
          if Dict.has m.typeByRolePred predId then none
          else ((existsPrefix? predId).filter fun type => Dict.has m.existsPredByType type).map
            fun type => (var, type)
  | _ => none

/-- The declarations of a body. -/
def declarations (body : List Atom) : List (String × String) := body.filterMap (declares m)

/-- The atom is sugar for a field of its variable, which is declared with the type. -/
def ReadsField (scope : List (String × String)) (predId : String) (terms : List Datum)
    (type field : String) : Prop :=
  ∃ var, headVar? terms = some var ∧ (var, type) ∈ scope ∧
    declares m (.pred predId terms) = none ∧ predId = lower type ++ ":" ++ field

/-- A field that a side of an attribute equality reads of a variable declared with the type. -/
def SideReads (scope : List (String × String)) (side : Datum) (type field : String) : Prop :=
  ∃ token var, side = .arr [token, .leaf (.str field)] ∧ varOf? token = some var ∧
    (var, type) ∈ scope

/-- The atoms of a negation, whether of one body or of cases. -/
def negated? : Atom → Option (List Atom)
  | .not body => some body
  | .notCases bodies => some bodies.flatten
  | _ => none

/-- A join variable, as a term. -/
def tempToken (temp : String) : Datum := .leaf (.str ("$" ++ temp))

mutual

/-- What an atom is to become. -/
def Resolved (scope : List (String × String)) : Atom → List Atom → Prop
  | .pred predId terms, chunk => ∃ canonical, chunk = [.pred canonical terms] ∧
      ∀ type field, ReadsField m lower scope predId terms type field →
        Dict.get? m.rolePredByTypeField (type, field) = some canonical
  | .attrEq left right, chunk => ∃ l r field owner canonical temp,
      left = .arr [l, .leaf (.str field)] ∧ right = .arr [r, .leaf (.str field)] ∧
      Dict.get? m.rolePredByTypeField (owner, field) = some canonical ∧
      (∀ type field', SideReads scope left type field' ∨ SideReads scope right type field' →
        Dict.get? m.rolePredByTypeField (type, field') = some canonical) ∧
      chunk = [.pred canonical [l, tempToken temp], .pred canonical [r, tempToken temp]]
  | .not body, chunk => ∃ chunks, chunk = [.not chunks.flatten] ∧
      ResolvedBody (scope ++ declarations m body) body chunks
  | .notCases bodies, chunk => ∃ out chunks, chunk = [out] ∧ negated? out = some chunks.flatten ∧
      ResolvedCases scope bodies chunks
  | .compare op left right, chunk => ∃ left' right', chunk = [.compare op left' right'] ∧
      ResolvedOperand scope left left' ∧ ResolvedOperand scope right right'
  | .other parts, chunk => chunk = [.other parts]
termination_by structural a => a

def ResolvedOperand (scope : List (String × String)) : Operand → Operand → Prop
  | .term t, operand => operand = .term t
  | .aggregate kind target filter, operand => ∃ chunks,
      operand = .aggregate kind target chunks.flatten ∧
      ResolvedBody (scope ++ declarations m filter) filter chunks
termination_by structural operand => operand

/-- What the atoms of a body are to become. -/
def ResolvedBody (scope : List (String × String)) : List Atom → List (List Atom) → Prop
  | [], chunks => chunks = []
  | a :: as, chunks => ∃ chunk rest, chunks = chunk :: rest ∧ Resolved scope a chunk ∧
      ResolvedBody scope as rest
termination_by structural as => as

/-- What the atoms of the cases of a negation are to become, case after case. -/
def ResolvedCases (scope : List (String × String)) : List (List Atom) → List (List Atom) → Prop
  | [], chunks => chunks = []
  | body :: bodies, chunks => ∃ own rest, chunks = own ++ rest ∧
      ResolvedBody (scope ++ declarations m body) body own ∧ ResolvedCases scope bodies rest
termination_by structural bodies => bodies

end

/-! ## The condition -/

/-- What is known of the variables of a body after an atom. -/
def noted (types : List (String × String)) : Atom → List (String × String)
  | .pred predId terms =>
      match headVar? terms with
      | none => types
      | some var =>
          match Dict.get? m.typeByExistsPred predId, Dict.get? m.typeByRolePred predId with
          | some type, _ => Dict.set types var type
          | none, some (owner, _) =>
              if Dict.has types var then types else Dict.set types var owner
          | none, none =>
              match (existsPrefix? predId).filter fun type => Dict.has m.existsPredByType type with
              | some type => Dict.set types var type
              | none => types
  | _ => types

mutual

/-- The atom may stay as it is: its sugar is already the id of the schema. -/
def Settled (scope : List (String × String)) : Atom → Prop
  | .pred predId terms => ∀ type field, ReadsField m lower scope predId terms type field →
      Dict.get? m.rolePredByTypeField (type, field) = some predId
  | .attrEq _ _ => False
  | .not body => SettledBody (scope ++ declarations m body) body
  | .notCases bodies => SettledCases scope bodies
  | .compare _ left right => SettledOperand scope left ∧ SettledOperand scope right
  | .other _ => True

def SettledOperand (scope : List (String × String)) : Operand → Prop
  | .term _ => True
  | .aggregate _ _ filter => SettledBody (scope ++ declarations m filter) filter

def SettledBody (scope : List (String × String)) : List Atom → Prop
  | [] => True
  | a :: as => Settled scope a ∧ SettledBody scope as

def SettledCases (scope : List (String × String)) : List (List Atom) → Prop
  | [] => True
  | body :: bodies => SettledBody (scope ++ declarations m body) body ∧ SettledCases scope bodies

end

/-- Where a sugar atom can be resolved: its id is already the one of the schema; or it is no id of a
field, and the type that the atoms before it in the same body give its variable has the same
predicate for the field. -/
def FieldKnown (types : List (String × String)) (predId : String) (terms : List Datum)
    (type field : String) : Prop :=
  ∃ canonical, Dict.get? m.rolePredByTypeField (type, field) = some canonical ∧
    (canonical = predId ∨
      (Dict.get? m.typeByRolePred predId = none ∧ existsPrefix? predId = none ∧
        ∃ var known field', headVar? terms = some var ∧ Dict.get? types var = some known ∧
          afterColon? predId = some field' ∧
          Dict.get? m.rolePredByTypeField (known, field') = some canonical))

/-- Where a side of an attribute equality is about its own field: what the atoms before it say of its
variable has the same predicate for the field as the declared type. -/
def SideKnown (scope types : List (String × String)) (side : Datum) : Prop :=
  ∀ token var field type, side = .arr [token, .leaf (.str field)] → varOf? token = some var →
    (var, type) ∈ scope → ∃ known canonical, Dict.get? types var = some known ∧
      Dict.get? m.rolePredByTypeField (known, field) = some canonical ∧
      Dict.get? m.rolePredByTypeField (type, field) = some canonical

mutual

/-- An atom the loop resolves. -/
def Resolvable (scope types : List (String × String)) : Atom → Prop
  | .pred predId terms => ∀ type field, ReadsField m lower scope predId terms type field →
      FieldKnown m types predId terms type field
  | .attrEq left right => SideKnown m scope types left ∧ SideKnown m scope types right
  | .not body => ResolvableAtoms (scope ++ declarations m body) [] body
  | .notCases bodies => SettledCases m lower scope bodies
  | .compare _ left right =>
      SettledOperand m lower scope left ∧ SettledOperand m lower scope right
  | .other _ => True

def ResolvableAtoms (scope types : List (String × String)) : List Atom → Prop
  | [] => True
  | a :: as => Resolvable scope types a ∧ ResolvableAtoms scope (noted m types a) as

end

end

/-! ## One predicate atom -/

variable {m : RecordMeta} {lower : String → String}

/-- The predicates of fields are known by their ids. -/
def RecordMeta.Indexed (m : RecordMeta) : Prop :=
  ∀ type field predId, Dict.get? m.rolePredByTypeField (type, field) = some predId →
    Dict.has m.typeByRolePred predId = true

theorem has_set {K V : Type} [DecidableEq K] {d : List (K × V)} {k x : K} {v : V}
    (h : Dict.has d x = true) : Dict.has (Dict.set d k v) x = true := by
  rw [Dict.has_iff] at h ⊢
  exact Dict.mem_keys_set.mpr (.inr h)

theorem RecordMeta.Indexed.addEntity (h : m.Indexed) (e : EntityDoc) : (m.addEntity e).Indexed := by
  unfold RecordMeta.addEntity
  split
  · exact h
  · exact h

theorem RecordMeta.Indexed.addPredicate (h : m.Indexed) (p : PredicateDoc) :
    (m.addPredicate p).Indexed := by
  unfold RecordMeta.addPredicate
  split
  next => exact h
  next owner _ =>
    split
    next => exact h
    next =>
      split
      next => exact h
      next =>
        split
        next => exact h
        next field _ =>
          intro type field' predId hget
          rw [Dict.get?_set] at hget
          split at hget
          next =>
            cases hget
            rw [Dict.has_iff]
            exact Dict.mem_keys_set.mpr (.inl rfl)
          next => exact has_set (h type field' predId hget)

/-- **What one predicate atom becomes**, by what is known of its variable. -/
theorem rewritePredId_ok {types types' : List (String × String)} {predId var path canonical : String}
    {terms : List Datum} (hvar : headVar? terms = some var)
    (h : rewritePredId m types predId var path = .ok (canonical, types')) :
    types' = noted m types (.pred predId terms) ∧
      (declares m (.pred predId terms) ≠ none ∨
        (Dict.has m.typeByRolePred predId = true ∧ canonical = predId) ∨
        (Dict.get? m.typeByRolePred predId = none ∧ existsPrefix? predId = none ∧
          ∃ known field, Dict.get? types var = some known ∧ afterColon? predId = some field ∧
            Dict.get? m.rolePredByTypeField (known, field) = some canonical) ∨
        (Dict.get? m.typeByRolePred predId = none ∧ canonical = predId ∧
          ∀ known field, existsPrefix? predId = none → Dict.get? types var = some known →
            afterColon? predId = some field →
            Dict.get? m.rolePredByTypeField (known, field) = none)) := by
  unfold rewritePredId at h
  unfold noted declares
  simp only [hvar]
  -- the tables are asked in the order of the source: exists, role, prefix, then the field of a
  -- variable whose type is known
  cases hexists : Dict.get? m.typeByExistsPred predId with
  | some type =>
    simp only [hexists] at h
    cases h
    exact ⟨rfl, .inl (by simp)⟩
  | none =>
    simp only [hexists] at h
    cases hrole : Dict.get? m.typeByRolePred predId with
    | some owner =>
      simp only [hrole] at h
      cases h
      exact ⟨rfl, .inr (.inl ⟨by simp [Dict.has, hrole], rfl⟩)⟩
    | none =>
      have hnorole : Dict.has m.typeByRolePred predId = false := by simp [Dict.has, hrole]
      simp only [hrole] at h
      cases hstart : existsPrefix? predId with
      | some type =>
        simp only [hstart] at h
        cases hdecl : Dict.get? m.existsPredByType type with
        | some c =>
          have hfilter : Option.filter (fun type => Dict.has m.existsPredByType type) (some type) =
              some type := by simp [Option.filter_some, Dict.has, hdecl]
          simp only [hdecl] at h
          cases h
          refine ⟨?_, .inl ?_⟩
          · dsimp only
            rw [hfilter]
          · dsimp only
            rw [hnorole, if_neg (by simp), hfilter]
            simp
        | none =>
          have hfilter : Option.filter (fun type => Dict.has m.existsPredByType type) (some type) =
              none := by simp [Option.filter_some, Dict.has, hdecl]
          simp only [hdecl] at h
          have hresult : canonical = predId ∧ types' = types := by
            split at h
            · cases h
              exact ⟨rfl, rfl⟩
            · split at h
              · cases h
              · cases h
                exact ⟨rfl, rfl⟩
          obtain ⟨rfl, rfl⟩ := hresult
          refine ⟨?_, .inr (.inr (.inr ⟨rfl, rfl, ?_⟩))⟩
          · dsimp only
            rw [hfilter]
          · intro known field hnone
            cases hnone
      | none =>
        simp only [hstart] at h
        cases hcolon : afterColon? predId with
        | none =>
          simp only [hcolon] at h
          cases h
          exact ⟨by simp, .inr (.inr (.inr ⟨rfl, rfl, by simp⟩))⟩
        | some field =>
          cases hknown : Dict.get? types var with
          | none =>
            simp only [hcolon, hknown] at h
            cases h
            exact ⟨by simp, .inr (.inr (.inr ⟨rfl, rfl, by simp⟩))⟩
          | some known =>
            simp only [hcolon, hknown] at h
            cases hfield : Dict.get? m.rolePredByTypeField (known, field) with
            | some c =>
              simp only [hfield] at h
              cases h
              exact ⟨by simp, .inr (.inr (.inl ⟨rfl, rfl, known, field, rfl, rfl, hfield⟩))⟩
            | none =>
              simp only [hfield] at h
              split at h
              · cases h
                refine ⟨by simp, .inr (.inr (.inr ⟨rfl, rfl, ?_⟩))⟩
                intro known' field' _ hk hf
                cases hk
                cases hf
                exact hfield
              · cases h

/-- A predicate atom is resolved exactly where its field is known. -/
theorem resolved_pred_iff (hm : m.Indexed) {ctx ctx' : Context} {path predId : String}
    {terms : List Datum} {chunk : List Atom} {scope : List (String × String)}
    (h : rewriteAtom m ctx path (.pred predId terms) = .ok (chunk, ctx')) :
    ctx'.recordVarTypes = noted m ctx.recordVarTypes (.pred predId terms) ∧
      (Resolved m lower scope (.pred predId terms) chunk ↔
        Resolvable m lower scope ctx.recordVarTypes (.pred predId terms)) := by
  unfold rewriteAtom at h
  unfold Resolved Resolvable
  cases hvar : headVar? terms with
  | none =>
    simp only [hvar] at h
    cases h
    refine ⟨by simp [noted, hvar], ?_, ?_⟩
    · rintro _ type field ⟨var, hsome, _⟩
      rw [hvar] at hsome
      cases hsome
    · intro _
      refine ⟨predId, rfl, ?_⟩
      rintro type field ⟨var, hsome, _⟩
      rw [hvar] at hsome
      cases hsome
  | some var =>
    simp only [hvar] at h
    obtain ⟨⟨canonical, types⟩, hrewrite, h⟩ := bind_ok_iff.mp h
    cases h
    obtain ⟨htypes, hcases⟩ := rewritePredId_ok hvar hrewrite
    refine ⟨htypes, ?_, ?_⟩
    · rintro ⟨c, hchunk, hall⟩ type field hreads
      cases hchunk
      refine ⟨canonical, hall type field hreads, ?_⟩
      rcases hcases with hdecl | ⟨_, rfl⟩ | ⟨hnone, hstart, known, field', hknown, hcolon, hrole⟩ |
        ⟨_, rfl, _⟩
      · obtain ⟨_, _, _, hnodecl, _⟩ := hreads
        exact absurd hnodecl hdecl
      · exact .inl rfl
      · exact .inr ⟨hnone, hstart, var, known, field', hvar, hknown, hcolon, hrole⟩
      · exact .inl rfl
    · intro hall
      refine ⟨canonical, rfl, ?_⟩
      intro type field hreads
      obtain ⟨c, hrole, hc⟩ := hall type field hreads
      have hindexed : c = predId → Dict.get? m.typeByRolePred predId ≠ none := by
        intro hcp hnone
        have hhas := hm type field c hrole
        rw [hcp, Dict.has, hnone] at hhas
        cases hhas
      rcases hcases with hdecl | ⟨hhas, rfl⟩ | ⟨hnone, _, known, field', hknown, hcolon, hfield⟩ |
        ⟨hnone, _, hunknown⟩
      · obtain ⟨_, _, _, hnodecl, _⟩ := hreads
        exact absurd hnodecl hdecl
      · rcases hc with rfl | ⟨hnone, _⟩
        · exact hrole
        · rw [Dict.has, hnone] at hhas
          cases hhas
      · rcases hc with hcp | ⟨_, _, var', known', field'', hvar', hknown', hcolon', hfield'⟩
        · exact absurd hnone (hindexed hcp)
        · cases hvar.symm.trans hvar'
          cases hknown.symm.trans hknown'
          cases hcolon.symm.trans hcolon'
          cases hfield.symm.trans hfield'
          exact hrole
      · rcases hc with hcp | ⟨_, hstart, var', known', field'', hvar', hknown', hcolon', hfield'⟩
        · exact absurd hnone (hindexed hcp)
        · cases hvar.symm.trans hvar'
          rw [hunknown known' field'' hstart hknown' hcolon'] at hfield'
          cases hfield'

/-! ## Alignment -/

/-- How many atoms an atom becomes. -/
def width : Atom → Nat
  | .attrEq _ _ => 2
  | _ => 1

theorem length_of_resolved {scope : List (String × String)} {a : Atom} {chunk : List Atom}
    (h : Resolved m lower scope a chunk) : chunk.length = width a := by
  cases a with
  | pred predId terms =>
    obtain ⟨_, rfl, _⟩ := h
    rfl
  | attrEq left right =>
    obtain ⟨_, _, _, _, _, _, _, _, _, _, rfl⟩ := h
    rfl
  | not body =>
    obtain ⟨_, rfl, _⟩ := h
    rfl
  | notCases bodies =>
    obtain ⟨_, _, rfl, _⟩ := h
    rfl
  | compare op left right =>
    obtain ⟨_, _, rfl, _⟩ := h
    rfl
  | other parts =>
    unfold Resolved at h
    rw [h]
    rfl

theorem lengths_of_resolved {scope : List (String × String)} : ∀ {as : List Atom}
    {chunks : List (List Atom)}, ResolvedBody m lower scope as chunks →
      chunks.map List.length = as.map width := by
  intro as
  induction as with
  | nil =>
    intro chunks h
    unfold ResolvedBody at h
    rw [h]
    rfl
  | cons a as ih =>
    intro chunks h
    obtain ⟨chunk, rest, rfl, ha, hrest⟩ := h
    rw [List.map_cons, List.map_cons, length_of_resolved ha, ih hrest]

theorem length_of_rewrite {ctx ctx' : Context} {path : String} {a : Atom} {chunk : List Atom}
    (h : rewriteAtom m ctx path a = .ok (chunk, ctx')) : chunk.length = width a := by
  unfold rewriteAtom at h
  cases a with
  | pred predId terms =>
    dsimp only at h
    cases hvar : headVar? terms with
    | none =>
      rw [hvar] at h
      cases h
      rfl
    | some var =>
      rw [hvar] at h
      obtain ⟨⟨canonical, types⟩, _, h⟩ := bind_ok_iff.mp h
      cases h
      rfl
  | attrEq left right =>
    obtain ⟨l, _, h⟩ := bind_ok_iff.mp h
    obtain ⟨r, _, h⟩ := bind_ok_iff.mp h
    obtain ⟨canonical, _, h⟩ := bind_ok_iff.mp h
    cases h
    rfl
  | not body =>
    obtain ⟨chunks, _, h⟩ := bind_ok_iff.mp h
    cases h
    rfl
  | notCases bodies =>
    cases h
    rfl
  | compare op left right =>
    cases h
    rfl
  | other parts =>
    cases h
    rfl

theorem lengths_of_rewrite : ∀ {as : List Atom} {ctx : Context} {path : String} {idx : Nat}
    {chunks : List (List Atom)}, rewriteAtoms m ctx path idx as = .ok chunks →
      chunks.map List.length = as.map width := by
  intro as
  induction as with
  | nil =>
    intro ctx path idx chunks h
    unfold rewriteAtoms at h
    cases h
    rfl
  | cons a as ih =>
    intro ctx path idx chunks h
    unfold rewriteAtoms at h
    obtain ⟨⟨chunk, ctx'⟩, ha, h⟩ := bind_ok_iff.mp h
    obtain ⟨rest, hrest, h⟩ := bind_ok_iff.mp h
    cases h
    rw [List.map_cons, List.map_cons, length_of_rewrite ha, ih hrest]

/-- The chunks of a body are found again in what it becomes. -/
theorem chunks_unique {chunks chunks' : List (List Atom)} {as : List Atom}
    (h : chunks.map List.length = as.map width) (h' : chunks'.map List.length = as.map width)
    (hflat : chunks.flatten = chunks'.flatten) : chunks = chunks' :=
  List.eq_iff_flatten_eq.mpr ⟨hflat, h.trans h'.symm⟩

/-! ## Whole bodies -/

/-- An atom whose chunk begins with it stays as it is: only an attribute equality becomes two atoms,
and none of them is one. -/
theorem unchanged_of_prefix {scope : List (String × String)} {a : Atom} {chunk r s : List Atom}
    (h : Resolved m lower scope a chunk) (hflat : a :: s = chunk ++ r) : chunk = [a] ∧ s = r := by
  have hlength := length_of_resolved h
  match chunk, hlength with
  | [x], _ =>
    rw [List.cons_append, List.nil_append, List.cons.injEq] at hflat
    exact ⟨by rw [hflat.1], hflat.2⟩
  | [], hlength => cases a <;> cases hlength
  | x :: y :: more, hlength =>
    cases a with
    | attrEq left right =>
      obtain ⟨_, _, _, _, _, _, _, _, _, _, hchunk⟩ := h
      rw [List.cons.injEq] at hchunk
      rw [List.cons_append, List.cons.injEq, hchunk.1] at hflat
      cases hflat.1
    | _ => cases hlength

/-- The same of a body. -/
theorem body_unchanged_of_prefix {scope : List (String × String)} : ∀ {as : List Atom}
    {chunks : List (List Atom)} {r s : List Atom}, ResolvedBody m lower scope as chunks →
      as ++ s = chunks.flatten ++ r → as = chunks.flatten ∧ s = r := by
  intro as
  induction as with
  | nil =>
    intro chunks r s h hflat
    unfold ResolvedBody at h
    rw [h] at hflat ⊢
    exact ⟨rfl, hflat⟩
  | cons a as ih =>
    intro chunks r s h hflat
    obtain ⟨chunk, rest, rfl, ha, hrest⟩ := h
    rw [List.flatten_cons, List.append_assoc, List.cons_append] at hflat
    obtain ⟨hchunk, hflat⟩ := unchanged_of_prefix ha hflat
    obtain ⟨has, hs⟩ := ih hrest hflat
    exact ⟨by rw [List.flatten_cons, hchunk, ← has]; rfl, hs⟩

mutual

/-- An atom that stays as it is. -/
theorem settled_iff (scope : List (String × String)) :
    ∀ a : Atom, Resolved m lower scope a [a] ↔ Settled m lower scope a
  | .pred predId terms => by
      unfold Resolved Settled
      constructor
      · rintro ⟨c, hchunk, hall⟩
        cases hchunk
        exact hall
      · intro hall
        exact ⟨predId, rfl, hall⟩
  | .attrEq left right => by
      unfold Resolved Settled
      constructor
      · rintro ⟨_, _, _, _, _, _, _, _, _, _, hchunk⟩
        cases hchunk
      · exact False.elim
  | .not body => by
      unfold Resolved Settled
      rw [← settledBody_iff (scope ++ declarations m body) body]
      constructor
      · rintro ⟨chunks, hchunk, hbody⟩
        cases hchunk
        exact ⟨chunks, rfl, hbody⟩
      · rintro ⟨chunks, hflat, hbody⟩
        exact ⟨chunks, by rw [← hflat], hbody⟩
  | .notCases bodies => by
      unfold Resolved Settled
      rw [← settledCases_iff scope bodies]
      constructor
      · rintro ⟨out, chunks, hchunk, hatoms, hcases⟩
        cases hchunk
        exact ⟨chunks, Option.some.inj hatoms, hcases⟩
      · rintro ⟨chunks, hflat, hcases⟩
        exact ⟨_, chunks, rfl, congrArg some hflat, hcases⟩
  | .compare op left right => by
      unfold Resolved Settled
      rw [← settledOperand_iff scope left, ← settledOperand_iff scope right]
      constructor
      · rintro ⟨left', right', hchunk, hl, hr⟩
        cases hchunk
        exact ⟨hl, hr⟩
      · rintro ⟨hl, hr⟩
        exact ⟨left, right, rfl, hl, hr⟩
  | .other parts => by
      unfold Resolved Settled
      simp

theorem settledOperand_iff (scope : List (String × String)) :
    ∀ o : Operand, ResolvedOperand m lower scope o o ↔ SettledOperand m lower scope o
  | .term t => by
      unfold ResolvedOperand SettledOperand
      simp
  | .aggregate kind target filter => by
      unfold ResolvedOperand SettledOperand
      rw [← settledBody_iff (scope ++ declarations m filter) filter]
      constructor
      · rintro ⟨chunks, hoperand, hbody⟩
        simp only [Operand.aggregate.injEq, true_and] at hoperand
        exact ⟨chunks, hoperand, hbody⟩
      · rintro ⟨chunks, hflat, hbody⟩
        exact ⟨chunks, by rw [← hflat], hbody⟩

theorem settledBody_iff (scope : List (String × String)) :
    ∀ as : List Atom, (∃ chunks : List (List Atom), as = chunks.flatten ∧
      ResolvedBody m lower scope as chunks) ↔ SettledBody m lower scope as
  | [] => by
      unfold SettledBody
      constructor
      · exact fun _ => trivial
      · exact fun _ => ⟨[], rfl, rfl⟩
  | a :: as => by
      unfold SettledBody
      rw [← settled_iff scope a, ← settledBody_iff scope as]
      constructor
      · rintro ⟨chunks, hflat, chunk, rest, rfl, ha, hrest⟩
        obtain ⟨rfl, hrestflat⟩ := unchanged_of_prefix ha hflat
        exact ⟨ha, rest, hrestflat, hrest⟩
      · rintro ⟨ha, rest, hflat, hrest⟩
        exact ⟨[a] :: rest, by rw [List.flatten_cons, ← hflat]; rfl, [a], rest, rfl, ha, hrest⟩

theorem settledCases_iff (scope : List (String × String)) :
    ∀ bodies : List (List Atom), (∃ chunks : List (List Atom), bodies.flatten = chunks.flatten ∧
      ResolvedCases m lower scope bodies chunks) ↔ SettledCases m lower scope bodies
  | [] => by
      unfold SettledCases
      constructor
      · exact fun _ => trivial
      · exact fun _ => ⟨[], rfl, rfl⟩
  | body :: bodies => by
      unfold SettledCases
      rw [← settledBody_iff (scope ++ declarations m body) body, ← settledCases_iff scope bodies]
      constructor
      · rintro ⟨chunks, hflat, own, rest, rfl, hbody, hcases⟩
        rw [List.flatten_cons, List.flatten_append] at hflat
        obtain ⟨hown, hrest⟩ := body_unchanged_of_prefix hbody hflat
        exact ⟨⟨own, hown, hbody⟩, rest, hrest, hcases⟩
      · rintro ⟨⟨own, hown, hbody⟩, rest, hrest, hcases⟩
        exact ⟨own ++ rest, by rw [List.flatten_cons, List.flatten_append, hown, hrest],
          own, rest, rfl, hbody, hcases⟩

end

theorem parseAttrEqSide_ok {side : Datum} {path : String} {s : Side}
    (h : parseAttrEqSide side path = .ok s) :
    side = .arr [s.token, .leaf (.str s.field)] ∧ varOf? s.token = some s.var := by
  unfold parseAttrEqSide at h
  split at h
  next token field =>
    cases hvar : varOf? token with
    | none =>
      rw [hvar] at h
      cases h
    | some var =>
      rw [hvar] at h
      dsimp only at h
      split at h
      next name =>
        split at h
        next =>
          cases h
          exact ⟨rfl, hvar⟩
        next => cases h
      next => cases h
  next => cases h

/-- An attribute equality the loop accepts. -/
structure AttrEqRewritten (m : RecordMeta) (ctx : Context) (left right : Datum) (chunk : List Atom)
    (ctx' : Context) (l r : Side) (canonical : String) : Prop where
  left : left = .arr [l.token, .leaf (.str l.field)] ∧ varOf? l.token = some l.var
  right : right = .arr [r.token, .leaf (.str l.field)] ∧ varOf? r.token = some r.var
  field : ∃ type, Dict.get? m.rolePredByTypeField (type, l.field) = some canonical ∧
    Dict.get? ctx.recordVarTypes l.var = some type ∧ Dict.get? ctx.recordVarTypes r.var = some type
  chunk : chunk = [.pred canonical [l.token, tempToken (allocateSystemIdentityVar ctx).1],
    .pred canonical [r.token, tempToken (allocateSystemIdentityVar ctx).1]]
  context : ctx' = (allocateSystemIdentityVar ctx).2

theorem sideType_ok {types : List (String × String)} {side : Side} {path type : String}
    (h : sideType types side path = .ok type) : Dict.get? types side.var = some type := by
  unfold sideType at h
  cases hget : Dict.get? types side.var with
  | none =>
    rw [hget] at h
    cases h
  | some known =>
    rw [hget] at h
    cases h
    rfl

/-- A side whose variable is known to be of the type. -/
theorem sideKnown_iff {scope types : List (String × String)} {side token : Datum}
    {var field known canonical : String} (hside : side = .arr [token, .leaf (.str field)])
    (hvar : varOf? token = some var) (hknown : Dict.get? types var = some known)
    (hrole : Dict.get? m.rolePredByTypeField (known, field) = some canonical) :
    SideKnown m scope types side ↔ ∀ type field', SideReads scope side type field' →
      Dict.get? m.rolePredByTypeField (type, field') = some canonical := by
  subst hside
  constructor
  · rintro h type field' ⟨token', var', heq, hvar', hmem⟩
    cases heq
    cases hvar.symm.trans hvar'
    obtain ⟨known', canonical', hknown', hrole', htype⟩ := h token var field type rfl hvar hmem
    cases hknown.symm.trans hknown'
    cases hrole.symm.trans hrole'
    exact htype
  · intro h token' var' field' type heq hvar' hmem
    cases heq
    cases hvar.symm.trans hvar'
    exact ⟨known, canonical, hknown, hrole, h type field ⟨token, var, rfl, hvar, hmem⟩⟩

theorem rewriteAttrEqAtom_ok {ctx ctx' : Context} {left right : Datum} {path : String}
    {chunk : List Atom} (h : rewriteAttrEqAtom m ctx left right path = .ok (chunk, ctx')) :
    ∃ l r canonical, AttrEqRewritten m ctx left right chunk ctx' l r canonical := by
  unfold rewriteAttrEqAtom at h
  obtain ⟨l, hl, h⟩ := bind_ok_iff.mp h
  obtain ⟨r, hr, h⟩ := bind_ok_iff.mp h
  obtain ⟨canonical, hcanonical, h⟩ := bind_ok_iff.mp h
  cases h
  unfold attrEqPredicate at hcanonical
  obtain ⟨leftType, hleft, hcanonical⟩ := bind_ok_iff.mp hcanonical
  obtain ⟨rightType, hright, hcanonical⟩ := bind_ok_iff.mp hcanonical
  obtain ⟨htypes, hcanonical⟩ := bind_unit_ok_iff.mp hcanonical
  obtain rfl : leftType = rightType := by simpa using htypes
  obtain ⟨_, hcanonical⟩ := bind_unit_ok_iff.mp hcanonical
  obtain ⟨_, hcanonical⟩ := bind_unit_ok_iff.mp hcanonical
  obtain ⟨_, hcanonical⟩ := bind_unit_ok_iff.mp hcanonical
  obtain ⟨_, hcanonical⟩ := bind_unit_ok_iff.mp hcanonical
  obtain ⟨hsame, hcanonical⟩ := bind_unit_ok_iff.mp hcanonical
  have hfield : l.field = r.field := by simpa using hsame
  have hrole : Dict.get? m.rolePredByTypeField (leftType, l.field) = some canonical := by
    cases hget : Dict.get? m.rolePredByTypeField (leftType, l.field) with
    | none =>
      rw [hget] at hcanonical
      cases hcanonical
    | some c =>
      rw [hget] at hcanonical
      cases hcanonical
      rfl
  exact ⟨l, r, canonical, parseAttrEqSide_ok hl, hfield ▸ parseAttrEqSide_ok hr,
    ⟨leftType, hrole, sideType_ok hleft, sideType_ok hright⟩, rfl, rfl⟩

mutual

/-- **An atom is resolved exactly where the loop can.** -/
theorem resolved_iff (hm : m.Indexed) : ∀ (a : Atom) {scope : List (String × String)}
    {ctx ctx' : Context} {path : String} {chunk : List Atom},
    rewriteAtom m ctx path a = .ok (chunk, ctx') →
      ctx'.recordVarTypes = noted m ctx.recordVarTypes a ∧
      (Resolved m lower scope a chunk ↔ Resolvable m lower scope ctx.recordVarTypes a)
  | .pred predId terms, _, _, _, _, _, h => resolved_pred_iff hm h
  | .attrEq left right, scope, ctx, ctx', path, chunk, h => by
      unfold rewriteAtom at h
      obtain ⟨l, r, canonical, hok⟩ := rewriteAttrEqAtom_ok h
      refine ⟨by rw [hok.context]; rfl, ?_⟩
      unfold Resolved Resolvable
      obtain ⟨owner, hrole, hl, hr⟩ := hok.field
      rw [sideKnown_iff hok.left.1 hok.left.2 hl hrole, sideKnown_iff hok.right.1 hok.right.2 hr hrole]
      constructor
      · rintro ⟨l', r', field, owner', canonical', temp, -, -, -, hreads, hchunk⟩
        have hsame : canonical = canonical' := by
          rw [hok.chunk] at hchunk
          simp only [List.cons.injEq, Atom.pred.injEq] at hchunk
          exact hchunk.1.1
        subst hsame
        exact ⟨fun type field h => hreads type field (.inl h),
          fun type field h => hreads type field (.inr h)⟩
      · rintro ⟨hleft, hright⟩
        exact ⟨l.token, r.token, l.field, owner, canonical, _, hok.left.1, hok.right.1, hrole,
          fun type field h => h.elim (hleft type field) (hright type field), hok.chunk⟩
  | .not body, scope, ctx, ctx', path, chunk, h => by
      unfold rewriteAtom at h
      obtain ⟨chunks, hbody, h⟩ := bind_ok_iff.mp h
      cases h
      refine ⟨rfl, ?_⟩
      unfold Resolved Resolvable
      rw [← resolvedBody_iff hm body hbody]
      constructor
      · rintro ⟨chunks', hchunk, hresolved⟩
        rw [List.cons.injEq, Atom.not.injEq] at hchunk
        rw [chunks_unique (lengths_of_rewrite hbody) (lengths_of_resolved hresolved) hchunk.1]
        exact hresolved
      · intro hresolved
        exact ⟨chunks, rfl, hresolved⟩
  | .notCases bodies, scope, ctx, ctx', path, chunk, h => by
      unfold rewriteAtom at h
      cases h
      refine ⟨rfl, ?_⟩
      unfold Resolved Resolvable
      rw [← settledCases_iff]
      constructor
      · rintro ⟨out, chunks, hchunk, hatoms, hcases⟩
        cases hchunk
        exact ⟨chunks, Option.some.inj hatoms, hcases⟩
      · rintro ⟨chunks, hflat, hcases⟩
        exact ⟨_, chunks, rfl, congrArg some hflat, hcases⟩
  | .compare op left right, scope, ctx, ctx', path, chunk, h => by
      unfold rewriteAtom at h
      cases h
      refine ⟨rfl, ?_⟩
      rw [settled_iff]
      rfl
  | .other parts, scope, ctx, ctx', path, chunk, h => by
      unfold rewriteAtom at h
      cases h
      refine ⟨rfl, ?_⟩
      rw [settled_iff]
      rfl

/-- **A body is resolved exactly where the loop can.** -/
theorem resolvedBody_iff (hm : m.Indexed) : ∀ (as : List Atom) {scope : List (String × String)}
    {ctx : Context} {path : String} {idx : Nat} {chunks : List (List Atom)},
    rewriteAtoms m ctx path idx as = .ok chunks →
      (ResolvedBody m lower scope as chunks ↔
        ResolvableAtoms m lower scope ctx.recordVarTypes as)
  | [], scope, ctx, path, idx, chunks, h => by
      unfold rewriteAtoms at h
      cases h
      unfold ResolvedBody ResolvableAtoms
      simp
  | a :: as, scope, ctx, path, idx, chunks, h => by
      unfold rewriteAtoms at h
      obtain ⟨⟨chunk, ctx'⟩, ha, h⟩ := bind_ok_iff.mp h
      obtain ⟨rest, hrest, h⟩ := bind_ok_iff.mp h
      cases h
      obtain ⟨htypes, hiff⟩ := @resolved_iff hm a scope _ _ _ _ ha
      unfold ResolvedBody ResolvableAtoms
      rw [← hiff, ← htypes, ← resolvedBody_iff hm as hrest]
      constructor
      · rintro ⟨chunk', rest', hcons, hchunk, hbody⟩
        cases hcons
        exact ⟨hchunk, hbody⟩
      · rintro ⟨hchunk, hbody⟩
        exact ⟨chunk, rest, rfl, hchunk, hbody⟩

end

end FactGraph.Authoring
