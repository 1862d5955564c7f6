import Mathlib.Data.Set.Basic
import FactGraph.Authoring.Resolution

/-!
# Which join variables are captured

An attribute equality becomes a join through a generated variable. The variable is to occur nowhere
else in scope: not in the atoms of its body, at any depth, and not in the bodies around it. The loop
makes it fresh for its own body only (`_collect_body_vars`), so a body inside another one may take
the name again.
-/

namespace FactGraph.Authoring

open Protocol Entity Check

/-! ## Occurrences -/

/-- The variables of a side of an attribute equality. -/
def sideVars : Datum → List String
  | .arr (token :: _) => datumVars token
  | _ => []

/-- The variables of an operand that is no aggregate. -/
def directOperandVars : Operand → List String
  | .term t => datumVars t
  | .aggregate _ _ _ => []

/-- The variables an atom shares with the body it stands in. -/
def directVars : Atom → List String
  | .pred _ terms => datumsVars terms
  | .attrEq left right => sideVars left ++ sideVars right
  | .not _ | .notCases _ => []
  | .compare _ left right => directOperandVars left ++ directOperandVars right
  | .other parts => datumsVars parts

mutual

/-- The variables of an atom, at any depth. -/
def innerVars : Atom → List String
  | .pred _ terms => datumsVars terms
  | .attrEq left right => sideVars left ++ sideVars right
  | .not body => innerBodyVars body
  | .notCases bodies => innerCasesVars bodies
  | .compare _ left right => innerOperandVars left ++ innerOperandVars right
  | .other parts => datumsVars parts

def innerOperandVars : Operand → List String
  | .term t => datumVars t
  | .aggregate _ target filter => datumVars target ++ innerBodyVars filter

def innerBodyVars : List Atom → List String
  | [] => []
  | a :: as => innerVars a ++ innerBodyVars as

def innerCasesVars : List (List Atom) → List String
  | [] => []
  | body :: bodies => innerBodyVars body ++ innerCasesVars bodies

end

/-- The variables the atoms of a body share. -/
def Direct (body : List Atom) : Set String := {x | x ∈ body.flatMap directVars}

/-- The variables of a body, at any depth. -/
def Inner (body : List Atom) : Set String := {x | x ∈ innerBodyVars body}

/-! ## The property -/

mutual

/-- The join variables of an atom are its own: `outer` are the variables of the bodies around it,
`others` the atoms beside it. -/
def Fresh (outer : Set String) (others : List Atom) : Atom → List Atom → Prop
  | .attrEq left right, chunk => ∃ p q l r temp, chunk = [.pred p [l, tempToken temp],
      .pred q [r, tempToken temp]] ∧ temp ∉ outer ∧ temp ∉ Inner others ∧
      temp ∉ sideVars left ∧ temp ∉ sideVars right
  | .not body, chunk => ∃ chunks, chunk = [.not chunks.flatten] ∧
      FreshBody (outer ∪ Direct others) [] body chunks
  | .notCases bodies, chunk => ∃ out chunks, chunk = [out] ∧ negated? out = some chunks.flatten ∧
      FreshCases (outer ∪ Direct others) bodies chunks
  | .compare op left right, chunk => ∃ left' right', chunk = [.compare op left' right'] ∧
      FreshOperand (outer ∪ Direct others) left left' ∧
      FreshOperand (outer ∪ Direct others) right right'
  | .pred _ _, chunk | .other _, chunk => ∃ b, chunk = [b]
termination_by structural a => a

def FreshOperand (outer : Set String) : Operand → Operand → Prop
  | .term _, _ => True
  | .aggregate kind target filter, operand => ∃ chunks,
      operand = .aggregate kind target chunks.flatten ∧ FreshBody outer [] filter chunks
termination_by structural operand => operand

/-- The join variables of a body are each its own; `before` is what the atoms before became. -/
def FreshBody (outer : Set String) (before : List Atom) : List Atom → List (List Atom) → Prop
  | [], chunks => chunks = []
  | a :: as, chunks => ∃ chunk rest, chunks = chunk :: rest ∧
      Fresh outer (before ++ rest.flatten) a chunk ∧ FreshBody outer (before ++ chunk) as rest
termination_by structural as => as

/-- The same of the cases of a negation; what stands in one of them is not seen in another. -/
def FreshCases (outer : Set String) : List (List Atom) → List (List Atom) → Prop
  | [], chunks => chunks = []
  | body :: bodies, chunks => ∃ own rest, chunks = own ++ rest ∧
      FreshBody outer [] body own ∧ FreshCases outer bodies rest
termination_by structural bodies => bodies

end

/-! ## The condition -/

/-- The names the loop generates for the attribute equalities of a body. -/
def generated (used : List String) (seq : Nat) : List Atom → List String
  | [] => []
  | .attrEq _ _ :: as =>
      let k := FreshNames.firstUnused identityName used seq
      identityName k :: generated (identityName k :: used) (k + 1) as
  | _ :: as => generated used seq as

/-- The names generated for a whole body. -/
def generatedNames (body : List Atom) : List String := generated (bodyVars body) 0 body

mutual

/-- No name generated for a body inside the atom occurs around that body, and no aggregate and no case
of a negation holds an attribute equality. -/
def Separable (outer : Set String) : Atom → Prop
  | .not body => (∀ t ∈ generatedNames body, t ∉ outer) ∧
      SeparableAtoms outer {t | t ∈ generatedNames body} [] body
  | .notCases bodies => casesHaveAttrEq bodies = false
  | .compare _ left right => operandHasAttrEq left = false ∧ operandHasAttrEq right = false
  | _ => True

/-- The same for the atoms of a body, whose own generated names are `names`. -/
def SeparableAtoms (outer names : Set String) (before : List Atom) : List Atom → Prop
  | [] => True
  | a :: as => Separable (outer ∪ names ∪ Direct (before ++ as)) a ∧
      SeparableAtoms outer names (before ++ [a]) as

end

/-! ## Names -/

theorem identityName_injective : Function.Injective identityName := by
  intro a b h
  have hlists : "__identity_".toList ++ (toString a).toList =
      "__identity_".toList ++ (toString b).toList := by
    have := congrArg String.toList h
    simpa [identityName] using this
  have hdigits : (toString a).toList = (toString b).toList := List.append_cancel_left hlists
  have hrepr : Nat.repr a = Nat.repr b := String.toList_inj.mp hdigits
  have hparsed := congrArg (fun s : String => Nat.ofDigitChars 10 s.toList 0) hrepr
  simpa using hparsed

/-- The generated names are new. -/
theorem generated_fresh : ∀ {as : List Atom} {used : List String} {seq : Nat},
    ∀ t ∈ generated used seq as, t ∉ used := by
  intro as
  induction as with
  | nil => simp [generated]
  | cons a as ih =>
    intro used seq t ht
    cases a with
    | attrEq left right =>
      unfold generated at ht
      rcases List.mem_cons.mp ht with rfl | ht
      · exact FreshNames.firstUnused_not_mem identityName_injective used seq
      · exact fun hused => ih t ht (List.mem_cons_of_mem _ hused)
    | _ => exact ih t ht

/-! ## Variables of bodies -/

theorem mem_varName_datum {d : Datum} : ∀ {x}, x ∈ sideVars d → x ∈ datumVars d := by
  intro x hx
  unfold sideVars at hx
  split at hx
  next token rest =>
    unfold datumVars datumsVars
    exact List.mem_append_left _ hx
  next => cases hx

mutual

theorem innerVars_subset : ∀ (a : Atom) {x : String}, x ∈ innerVars a → x ∈ atomVars a
  | .pred predId terms, x, hx => by
      unfold innerVars at hx
      unfold atomVars
      exact List.mem_append_right _ hx
  | .attrEq left right, x, hx => by
      unfold innerVars at hx
      unfold atomVars
      rcases List.mem_append.mp hx with hx | hx
      · exact List.mem_append_left _ (mem_varName_datum hx)
      · exact List.mem_append_right _ (mem_varName_datum hx)
  | .not body, x, hx => by
      unfold innerVars at hx
      unfold atomVars
      exact innerBodyVars_subset body hx
  | .notCases bodies, x, hx => by
      unfold innerVars at hx
      unfold atomVars
      exact innerCasesVars_subset bodies hx
  | .compare op left right, x, hx => by
      unfold innerVars at hx
      unfold atomVars
      rcases List.mem_append.mp hx with hx | hx
      · exact List.mem_append_right _ (List.mem_append_left _ (innerOperandVars_subset left hx))
      · exact List.mem_append_right _ (List.mem_append_right _ (innerOperandVars_subset right hx))
  | .other parts, x, hx => by
      unfold innerVars at hx
      unfold atomVars
      exact hx

theorem innerOperandVars_subset : ∀ (o : Operand) {x : String},
    x ∈ innerOperandVars o → x ∈ operandVars o
  | .term t, x, hx => by
      unfold innerOperandVars at hx
      unfold operandVars
      exact hx
  | .aggregate kind target filter, x, hx => by
      unfold innerOperandVars at hx
      unfold operandVars
      rcases List.mem_append.mp hx with hx | hx
      · exact List.mem_append_right _ (List.mem_append_left _ hx)
      · exact List.mem_append_right _ (List.mem_append_right _ (innerBodyVars_subset filter hx))

theorem innerBodyVars_subset : ∀ (as : List Atom) {x : String},
    x ∈ innerBodyVars as → x ∈ bodyVars as
  | [], x, hx => by
      unfold innerBodyVars at hx
      cases hx
  | a :: as, x, hx => by
      unfold innerBodyVars at hx
      unfold bodyVars
      rcases List.mem_append.mp hx with hx | hx
      · exact List.mem_append_left _ (innerVars_subset a hx)
      · exact List.mem_append_right _ (innerBodyVars_subset as hx)

theorem innerCasesVars_subset : ∀ (bodies : List (List Atom)) {x : String},
    x ∈ innerCasesVars bodies → x ∈ casesVars bodies
  | [], x, hx => by
      unfold innerCasesVars at hx
      cases hx
  | body :: bodies, x, hx => by
      unfold innerCasesVars at hx
      unfold casesVars
      rcases List.mem_append.mp hx with hx | hx
      · exact List.mem_append_left _ (innerBodyVars_subset body hx)
      · exact List.mem_append_right _ (innerCasesVars_subset bodies hx)

end

theorem innerBodyVars_cons (a : Atom) (as : List Atom) :
    innerBodyVars (a :: as) = innerVars a ++ innerBodyVars as := by
  rw [innerBodyVars]

theorem innerBodyVars_append (as bs : List Atom) :
    innerBodyVars (as ++ bs) = innerBodyVars as ++ innerBodyVars bs := by
  induction as with
  | nil => rw [List.nil_append, innerBodyVars, List.nil_append]
  | cons a as ih =>
    rw [List.cons_append, innerBodyVars_cons, innerBodyVars_cons, ih, List.append_assoc]

theorem innerBodyVars_flatten (bodies : List (List Atom)) :
    innerBodyVars bodies.flatten = innerCasesVars bodies := by
  induction bodies with
  | nil => rw [List.flatten_nil, innerBodyVars, innerCasesVars]
  | cons body bodies ih => rw [List.flatten_cons, innerBodyVars_append, innerCasesVars, ih]

theorem inner_append (as bs : List Atom) : Inner (as ++ bs) = Inner as ∪ Inner bs := by
  ext x
  simp [Inner, innerBodyVars_append]

theorem mem_inner_cons {a : Atom} {as : List Atom} {x : String} :
    x ∈ Inner (a :: as) ↔ x ∈ innerVars a ∨ x ∈ Inner as := by
  unfold Inner
  rw [Set.mem_ofPred_eq, innerBodyVars_cons, List.mem_append, Set.mem_ofPred_eq]

theorem mem_inner_singleton {a : Atom} {x : String} : x ∈ Inner [a] ↔ x ∈ innerVars a := by
  rw [mem_inner_cons]
  simp [Inner, innerBodyVars]

theorem direct_append (as bs : List Atom) : Direct (as ++ bs) = Direct as ∪ Direct bs := by
  ext x
  simp [Direct]

/-- The variable of a generated token. -/
theorem datumVars_tempToken (k : Nat) : datumVars (tempToken (identityName k)) = [identityName k] := by
  have hname : (identityName k).toList = '_' :: ("_identity_".toList ++ (toString k).toList) := by
    have happend : identityName k = "__identity_" ++ toString k := rfl
    rw [happend, String.toList_append]
    rfl
  have hlist : ("$" ++ identityName k).toList =
      '$' :: '_' :: ("_identity_".toList ++ (toString k).toList) := by
    rw [String.toList_append, hname]
    rfl
  have hvar : varName? ("$" ++ identityName k) = some (identityName k) := by
    unfold varName?
    rw [hlist]
    show some (String.ofList ('_' :: ("_identity_".toList ++ (toString k).toList))) = _
    rw [← hname, String.ofList_toList]
  unfold tempToken datumVars
  rw [hvar]
  rfl

/-! ## What a body becomes -/

variable {m : RecordMeta}

/-- The names generated for an atom, and for the atoms after it. -/
theorem generated_cons {ctx ctx' : Context} {path : String} {a : Atom} {chunk : List Atom}
    (h : rewriteAtom m ctx path a = .ok (chunk, ctx')) (as : List Atom) :
    generated ctx.usedVars ctx.identityTmpSeq (a :: as) =
        generated ctx.usedVars ctx.identityTmpSeq [a] ++
          generated ctx'.usedVars ctx'.identityTmpSeq as ∧
      (∀ x ∈ ctx.usedVars, x ∈ ctx'.usedVars) ∧
      ∀ t ∈ generated ctx.usedVars ctx.identityTmpSeq [a], t ∈ ctx'.usedVars := by
  unfold rewriteAtom at h
  cases a with
  | pred predId terms =>
    dsimp only at h
    cases hvar : headVar? terms with
    | none =>
      rw [hvar] at h
      cases h
      simp [generated]
    | some var =>
      rw [hvar] at h
      obtain ⟨_, _, h⟩ := bind_ok_iff.mp h
      cases h
      simp [generated]
  | attrEq left right =>
    obtain ⟨l, r, canonical, hok⟩ := rewriteAttrEqAtom_ok h
    rw [hok.context]
    unfold allocateSystemIdentityVar
    simp only [generated, List.singleton_append, List.mem_cons, List.not_mem_nil, or_false,
      true_and]
    exact ⟨fun x hx => .inr hx, fun t ht => .inl ht⟩
  | not body =>
    obtain ⟨chunks, _, h⟩ := bind_ok_iff.mp h
    cases h
    simp [generated]
  | notCases bodies =>
    cases h
    simp [generated]
  | compare op left right =>
    cases h
    simp [generated]
  | other parts =>
    cases h
    simp [generated]

/-- The variables an atom shares are kept; an attribute equality gets one more. -/
theorem direct_of_rewrite {ctx ctx' : Context} {path : String} {a : Atom} {chunk : List Atom}
    (h : rewriteAtom m ctx path a = .ok (chunk, ctx')) :
    Direct chunk = Direct [a] ∪ {t | t ∈ generated ctx.usedVars ctx.identityTmpSeq [a]} := by
  unfold rewriteAtom at h
  cases a with
  | pred predId terms =>
    dsimp only at h
    cases hvar : headVar? terms with
    | none =>
      rw [hvar] at h
      cases h
      simp [generated]
    | some var =>
      rw [hvar] at h
      obtain ⟨_, _, h⟩ := bind_ok_iff.mp h
      cases h
      simp [generated, Direct, directVars]
  | attrEq left right =>
    obtain ⟨l, r, canonical, hok⟩ := rewriteAttrEqAtom_ok h
    rw [hok.chunk, hok.left.1, hok.right.1]
    ext x
    have htemp := datumVars_tempToken (FreshNames.firstUnused identityName ctx.usedVars
      ctx.identityTmpSeq)
    simp only [Direct, List.flatMap_cons, List.flatMap_nil, List.append_nil, directVars, sideVars,
      datumsVars, allocateSystemIdentityVar, htemp, generated, Set.mem_ofPred_eq, Set.mem_union,
      List.mem_append, List.mem_singleton]
    tauto
  | not body =>
    obtain ⟨chunks, _, h⟩ := bind_ok_iff.mp h
    cases h
    simp [generated, Direct, directVars]
  | notCases bodies =>
    cases h
    simp [generated, Direct, directVars]
  | compare op left right =>
    cases h
    simp [generated]
  | other parts =>
    cases h
    simp [generated]

theorem direct_of_rewrites : ∀ {as : List Atom} {ctx : Context} {path : String} {idx : Nat}
    {chunks : List (List Atom)}, rewriteAtoms m ctx path idx as = .ok chunks →
      Direct chunks.flatten =
        Direct as ∪ {t | t ∈ generated ctx.usedVars ctx.identityTmpSeq as} := by
  intro as
  induction as with
  | nil =>
    intro ctx path idx chunks h
    unfold rewriteAtoms at h
    cases h
    simp [generated, Direct]
  | cons a as ih =>
    intro ctx path idx chunks h
    unfold rewriteAtoms at h
    obtain ⟨⟨chunk, ctx'⟩, ha, h⟩ := bind_ok_iff.mp h
    obtain ⟨rest, hrest, h⟩ := bind_ok_iff.mp h
    cases h
    rw [List.flatten_cons, direct_append, direct_of_rewrite ha, ih hrest, (generated_cons ha as).1]
    have hcons : Direct (a :: as) = Direct [a] ∪ Direct as := direct_append [a] as
    rw [hcons]
    ext x
    simp only [Set.mem_union, Set.mem_ofPred_eq, List.mem_append]
    tauto

mutual

/-- What occurs in a chunk occurs in its atom, or was generated for it, or is not to be seen from
outside. -/
theorem inner_of_rewrite : ∀ (a : Atom) {ctx ctx' : Context} {path : String} {chunk : List Atom}
    {outer : Set String}, rewriteAtom m ctx path a = .ok (chunk, ctx') → Separable outer a →
      ∀ x ∈ Inner chunk, x ∈ innerVars a ∨
        x ∈ generated ctx.usedVars ctx.identityTmpSeq [a] ∨ x ∉ outer
  | .pred predId terms, ctx, ctx', path, chunk, outer, h, _, x, hx => by
      unfold rewriteAtom at h
      cases hvar : headVar? terms with
      | none =>
        simp only [hvar] at h
        cases h
        exact .inl (mem_inner_singleton.mp hx)
      | some var =>
        simp only [hvar] at h
        obtain ⟨_, _, h⟩ := bind_ok_iff.mp h
        cases h
        rw [mem_inner_singleton, innerVars] at hx
        rw [innerVars]
        exact .inl hx
  | .attrEq left right, ctx, ctx', path, chunk, outer, h, _, x, hx => by
      unfold rewriteAtom at h
      obtain ⟨l, r, canonical, hok⟩ := rewriteAttrEqAtom_ok h
      have htemp := datumVars_tempToken (FreshNames.firstUnused identityName ctx.usedVars
        ctx.identityTmpSeq)
      rw [hok.chunk, mem_inner_cons, mem_inner_singleton] at hx
      simp only [innerVars, datumsVars, allocateSystemIdentityVar, htemp, List.mem_append,
        List.mem_singleton, List.append_nil] at hx
      rw [innerVars, hok.left.1, hok.right.1, List.mem_append]
      simp only [sideVars, generated, List.mem_singleton]
      tauto
  | .not body, ctx, ctx', path, chunk, outer, h, hsep, x, hx => by
      unfold rewriteAtom at h
      obtain ⟨chunks, hbody, h⟩ := bind_ok_iff.mp h
      cases h
      unfold Separable at hsep
      rw [mem_inner_singleton, innerVars] at hx
      -- a name generated in the body is new to what stands around it
      rcases inner_of_rewrites body hbody hsep.2 x hx with hbody | hgen | hout
      · rw [innerVars]
        exact .inl hbody
      · exact .inr (.inr (hsep.1 x hgen))
      · exact .inr (.inr fun hmem => hout (.inl hmem))
  | .notCases bodies, ctx, ctx', path, chunk, outer, h, _, x, hx => by
      unfold rewriteAtom at h
      cases h
      rw [mem_inner_singleton, innerVars, innerBodyVars_flatten] at hx
      rw [innerVars]
      exact .inl hx
  | .compare op left right, ctx, ctx', path, chunk, outer, h, _, x, hx => by
      unfold rewriteAtom at h
      cases h
      exact .inl (mem_inner_singleton.mp hx)
  | .other parts, ctx, ctx', path, chunk, outer, h, _, x, hx => by
      unfold rewriteAtom at h
      cases h
      exact .inl (mem_inner_singleton.mp hx)

theorem inner_of_rewrites : ∀ (as : List Atom) {ctx : Context} {path : String} {idx : Nat}
    {chunks : List (List Atom)} {outer names : Set String} {before : List Atom},
    rewriteAtoms m ctx path idx as = .ok chunks → SeparableAtoms outer names before as →
      ∀ x ∈ Inner chunks.flatten, x ∈ Inner as ∨
        x ∈ generated ctx.usedVars ctx.identityTmpSeq as ∨ x ∉ outer ∪ names
  | [], ctx, path, idx, chunks, outer, names, before, h, _, x, hx => by
      unfold rewriteAtoms at h
      cases h
      exact .inl hx
  | a :: as, ctx, path, idx, chunks, outer, names, before, h, hsep, x, hx => by
      unfold rewriteAtoms at h
      obtain ⟨⟨chunk, ctx'⟩, ha, h⟩ := bind_ok_iff.mp h
      obtain ⟨rest, hrest, h⟩ := bind_ok_iff.mp h
      cases h
      unfold SeparableAtoms at hsep
      rw [(generated_cons ha as).1, List.mem_append, mem_inner_cons]
      rw [List.flatten_cons, inner_append] at hx
      rcases hx with hx | hx
      · rcases inner_of_rewrite a ha hsep.1 x hx with hin | hgen | hout
        · exact .inl (.inl hin)
        · exact .inr (.inl (.inl hgen))
        · exact .inr (.inr fun hmem => hout (.inl hmem))
      · rcases inner_of_rewrites as hrest hsep.2 x hx with hin | hgen | hout
        · exact .inl (.inr hin)
        · exact .inr (.inl (.inr hgen))
        · exact .inr (.inr hout)

end

/-! ## Freshness -/

theorem length_of_fresh {outer : Set String} {others : List Atom} {a : Atom} {chunk : List Atom}
    (h : Fresh outer others a chunk) : chunk.length = width a := by
  cases a with
  | attrEq left right =>
    unfold Fresh at h
    obtain ⟨_, _, _, _, _, rfl, _⟩ := h
    rfl
  | not body =>
    unfold Fresh at h
    obtain ⟨_, rfl, _⟩ := h
    rfl
  | notCases bodies =>
    unfold Fresh at h
    obtain ⟨_, _, rfl, _⟩ := h
    rfl
  | compare op left right =>
    unfold Fresh at h
    obtain ⟨_, _, rfl, _⟩ := h
    rfl
  | _ =>
    unfold Fresh at h
    obtain ⟨_, rfl⟩ := h
    rfl

theorem lengths_of_fresh {outer : Set String} : ∀ {as : List Atom} {before : List Atom}
    {chunks : List (List Atom)}, FreshBody outer before as chunks →
      chunks.map List.length = as.map width := by
  intro as
  induction as with
  | nil =>
    intro before chunks h
    unfold FreshBody at h
    rw [h]
    rfl
  | cons a as ih =>
    intro before chunks h
    unfold FreshBody at h
    obtain ⟨chunk, rest, rfl, ha, hrest⟩ := h
    rw [List.map_cons, List.map_cons, length_of_fresh ha, ih hrest]

/-- An atom whose chunk begins with it stays as it is. -/
theorem fresh_unchanged_of_prefix {outer : Set String} {others : List Atom} {a : Atom}
    {chunk r s : List Atom} (h : Fresh outer others a chunk) (hflat : a :: s = chunk ++ r) :
    chunk = [a] ∧ s = r := by
  have hlength := length_of_fresh h
  match chunk, hlength with
  | [x], _ =>
    rw [List.cons_append, List.nil_append, List.cons.injEq] at hflat
    exact ⟨by rw [hflat.1], hflat.2⟩
  | [], hlength => cases a <;> cases hlength
  | x :: y :: more, hlength =>
    cases a with
    | attrEq left right =>
      unfold Fresh at h
      obtain ⟨_, _, _, _, _, hchunk, _⟩ := h
      rw [List.cons.injEq] at hchunk
      rw [List.cons_append, List.cons.injEq, hchunk.1] at hflat
      cases hflat.1
    | _ => cases hlength

/-- The same of a body. -/
theorem freshBody_unchanged_of_prefix {outer : Set String} : ∀ {as : List Atom}
    {before : List Atom} {chunks : List (List Atom)} {r s : List Atom},
    FreshBody outer before as chunks → as ++ s = chunks.flatten ++ r →
      as = chunks.flatten ∧ s = r := by
  intro as
  induction as with
  | nil =>
    intro before chunks r s h hflat
    unfold FreshBody at h
    rw [h] at hflat ⊢
    exact ⟨rfl, hflat⟩
  | cons a as ih =>
    intro before chunks r s h hflat
    unfold FreshBody at h
    obtain ⟨chunk, rest, rfl, ha, hrest⟩ := h
    rw [List.flatten_cons, List.append_assoc, List.cons_append] at hflat
    obtain ⟨hchunk, hflat⟩ := fresh_unchanged_of_prefix ha hflat
    obtain ⟨has, hs⟩ := ih hrest hflat
    exact ⟨by rw [List.flatten_cons, hchunk, ← has]; rfl, hs⟩

mutual

/-- An atom that stays as it is has no attribute equality. -/
theorem fresh_self_iff (outer : Set String) (others : List Atom) :
    ∀ a : Atom, Fresh outer others a [a] ↔ hasAttrEq a = false
  | .pred predId terms => by
      unfold Fresh hasAttrEq
      simp
  | .attrEq left right => by
      unfold Fresh hasAttrEq
      simp
  | .not body => by
      unfold Fresh hasAttrEq
      rw [← freshBody_self_iff (outer ∪ Direct others) [] body]
      constructor
      · rintro ⟨chunks, hchunk, hbody⟩
        cases hchunk
        exact ⟨chunks, rfl, hbody⟩
      · rintro ⟨chunks, hflat, hbody⟩
        exact ⟨chunks, by rw [← hflat], hbody⟩
  | .notCases bodies => by
      unfold Fresh hasAttrEq
      rw [← freshCases_self_iff (outer ∪ Direct others) bodies]
      constructor
      · rintro ⟨out, chunks, hchunk, hatoms, hcases⟩
        cases hchunk
        exact ⟨chunks, Option.some.inj hatoms, hcases⟩
      · rintro ⟨chunks, hflat, hcases⟩
        exact ⟨_, chunks, rfl, congrArg some hflat, hcases⟩
  | .compare op left right => by
      unfold Fresh hasAttrEq
      rw [Bool.or_eq_false_iff, ← freshOperand_self_iff (outer ∪ Direct others) left,
        ← freshOperand_self_iff (outer ∪ Direct others) right]
      constructor
      · rintro ⟨left', right', hchunk, hl, hr⟩
        cases hchunk
        exact ⟨hl, hr⟩
      · rintro ⟨hl, hr⟩
        exact ⟨left, right, rfl, hl, hr⟩
  | .other parts => by
      unfold Fresh hasAttrEq
      simp

theorem freshOperand_self_iff (outer : Set String) :
    ∀ o : Operand, FreshOperand outer o o ↔ operandHasAttrEq o = false
  | .term t => by
      unfold FreshOperand operandHasAttrEq
      simp
  | .aggregate kind target filter => by
      unfold FreshOperand operandHasAttrEq
      rw [← freshBody_self_iff outer [] filter]
      constructor
      · rintro ⟨chunks, hoperand, hbody⟩
        simp only [Operand.aggregate.injEq, true_and] at hoperand
        exact ⟨chunks, hoperand, hbody⟩
      · rintro ⟨chunks, hflat, hbody⟩
        exact ⟨chunks, by rw [← hflat], hbody⟩

theorem freshBody_self_iff (outer : Set String) : ∀ (before as : List Atom),
    (∃ chunks : List (List Atom), as = chunks.flatten ∧ FreshBody outer before as chunks) ↔
      bodyHasAttrEq as = false
  | before, [] => by
      unfold bodyHasAttrEq FreshBody
      simp
  | before, a :: as => by
      unfold bodyHasAttrEq FreshBody
      rw [Bool.or_eq_false_iff]
      constructor
      · rintro ⟨chunks, hflat, chunk, rest, rfl, ha, hrest⟩
        obtain ⟨rfl, hrestflat⟩ := fresh_unchanged_of_prefix ha hflat
        exact ⟨(fresh_self_iff outer _ a).mp ha,
          (freshBody_self_iff outer (before ++ [a]) as).mp ⟨rest, hrestflat, hrest⟩⟩
      · rintro ⟨ha, has⟩
        obtain ⟨rest, hflat, hrest⟩ := (freshBody_self_iff outer (before ++ [a]) as).mpr has
        exact ⟨[a] :: rest, by rw [List.flatten_cons, ← hflat]; rfl, [a], rest, rfl,
          (fresh_self_iff outer (before ++ rest.flatten) a).mpr ha, hrest⟩

theorem freshCases_self_iff (outer : Set String) : ∀ bodies : List (List Atom),
    (∃ chunks : List (List Atom), bodies.flatten = chunks.flatten ∧ FreshCases outer bodies chunks) ↔
      casesHaveAttrEq bodies = false
  | [] => by
      unfold casesHaveAttrEq FreshCases
      simp
  | body :: bodies => by
      unfold casesHaveAttrEq FreshCases
      rw [Bool.or_eq_false_iff, ← freshBody_self_iff outer [] body, ← freshCases_self_iff outer bodies]
      constructor
      · rintro ⟨chunks, hflat, own, rest, rfl, hbody, hcases⟩
        rw [List.flatten_cons, List.flatten_append] at hflat
        obtain ⟨hown, hrest⟩ := freshBody_unchanged_of_prefix hbody hflat
        exact ⟨⟨own, hown, hbody⟩, rest, hrest, hcases⟩
      · rintro ⟨⟨own, hown, hbody⟩, rest, hrest, hcases⟩
        exact ⟨own ++ rest, by rw [List.flatten_cons, List.flatten_append, hown, hrest],
          own, rest, rfl, hbody, hcases⟩

end

/-- What is around an atom that is no attribute equality can be read off the body, and the names
generated for it. -/
theorem separable_iff_of_around {a : Atom} {as : List Atom} {outer names : Set String}
    {p q : List Atom} {ctx ctx' : Context} {path path' : String} {idx : Nat} {chunk : List Atom}
    {rest : List (List Atom)} (ha : rewriteAtom m ctx path a = .ok (chunk, ctx'))
    (hrest : rewriteAtoms m ctx' path' idx as = .ok rest)
    (h : Direct p ∪ {t | t ∈ generated ctx.usedVars ctx.identityTmpSeq (a :: as)} =
      Direct q ∪ names) :
    Separable (outer ∪ Direct (p ++ rest.flatten)) a ↔
      Separable (outer ∪ names ∪ Direct (q ++ as)) a := by
  rw [(generated_cons ha as).1] at h
  cases a with
  | attrEq left right =>
    unfold Separable
    exact Iff.rfl
  | _ =>
    have hset : outer ∪ Direct (p ++ rest.flatten) = outer ∪ names ∪ Direct (q ++ as) := by
      rw [direct_append, direct_append, direct_of_rewrites hrest]
      ext x
      have hx : x ∈ Direct p ∪ {t | t ∈ generated ctx'.usedVars ctx'.identityTmpSeq as} ↔
          x ∈ Direct q ∪ names := by
        rw [← h]
        simp [generated]
      simp only [Set.mem_union] at hx ⊢
      tauto
    rw [hset]

mutual

/-- **The join variables of an atom are its own** exactly if its names are not in use outside, and
the bodies inside it are separable from what is around them. -/
theorem fresh_iff : ∀ (a : Atom) {outer : Set String} {others : List Atom} {ctx ctx' : Context}
    {path : String} {chunk : List Atom}, rewriteAtom m ctx path a = .ok (chunk, ctx') →
      (∀ x ∈ atomVars a, x ∈ ctx.usedVars) →
      (Fresh outer others a chunk ↔
        (∀ t ∈ generated ctx.usedVars ctx.identityTmpSeq [a], t ∉ outer ∧ t ∉ Inner others) ∧
          Separable (outer ∪ Direct others) a)
  | .pred predId terms, outer, others, ctx, ctx', path, chunk, h, _ => by
      have hlength := length_of_rewrite h
      obtain ⟨b, rfl⟩ := List.length_eq_one_iff.mp hlength
      unfold Fresh Separable
      simp [generated]
  | .attrEq left right, outer, others, ctx, ctx', path, chunk, h, hused => by
      unfold rewriteAtom at h
      obtain ⟨l, r, canonical, hok⟩ := rewriteAttrEqAtom_ok h
      have hnew : ∀ t ∈ generated ctx.usedVars ctx.identityTmpSeq [.attrEq left right],
          t ∉ atomVars (.attrEq left right) := by
        intro t ht hmem
        exact generated_fresh t ht (hused t hmem)
      have hgen : generated ctx.usedVars ctx.identityTmpSeq [.attrEq left right] =
          [(allocateSystemIdentityVar ctx).1] := rfl
      rw [hgen] at hnew ⊢
      simp only [List.mem_singleton, forall_eq] at hnew ⊢
      unfold Fresh Separable
      constructor
      · rintro ⟨p, q, l', r', temp, hchunk, houter, hothers, _⟩
        rw [hok.chunk] at hchunk
        have htemp : tempToken (allocateSystemIdentityVar ctx).1 = tempToken temp := by
          simp only [List.cons.injEq, Atom.pred.injEq] at hchunk
          exact hchunk.1.2.2.1
        unfold tempToken at htemp
        simp only [Doc.leaf.injEq, Scalar.str.injEq, String.append_right_inj] at htemp
        rw [htemp]
        exact ⟨⟨houter, hothers⟩, trivial⟩
      · rintro ⟨⟨houter, hothers⟩, _⟩
        rw [atomVars, List.mem_append, not_or] at hnew
        exact ⟨canonical, canonical, l.token, r.token, _, hok.chunk, houter, hothers,
          fun hmem => hnew.1 (mem_varName_datum hmem), fun hmem => hnew.2 (mem_varName_datum hmem)⟩
  | .not body, outer, others, ctx, ctx', path, chunk, h, hused => by
      unfold rewriteAtom at h
      obtain ⟨chunks, hbody, h⟩ := bind_ok_iff.mp h
      cases h
      -- a body starts with counters of its own, so its names are generated from its variables alone
      have hiff := @freshBody_iff body (outer ∪ Direct others) {t | t ∈ generatedNames body} [] [] _ _ _
        _ hbody (fun x hx => hx) (fun t ht => ht) rfl (by simp [Inner, innerBodyVars])
      unfold Fresh Separable
      simp only [generated, List.not_mem_nil, false_imp_iff, implies_true, true_and]
      rw [show generatedNames body = generated (bodyVars body) 0 body from rfl] at hiff ⊢
      rw [← hiff]
      constructor
      · rintro ⟨chunks', hchunk, hfresh⟩
        rw [List.cons.injEq, Atom.not.injEq] at hchunk
        rw [chunks_unique (lengths_of_rewrite hbody) (lengths_of_fresh hfresh) hchunk.1]
        exact hfresh
      · intro hfresh
        exact ⟨chunks, rfl, hfresh⟩
  | .notCases bodies, outer, others, ctx, ctx', path, chunk, h, _ => by
      unfold rewriteAtom at h
      cases h
      unfold Fresh Separable
      rw [← freshCases_self_iff (outer ∪ Direct others) bodies]
      simp only [generated, List.not_mem_nil, false_imp_iff, implies_true, true_and]
      constructor
      · rintro ⟨out, chunks, hchunk, hatoms, hcases⟩
        cases hchunk
        exact ⟨chunks, Option.some.inj hatoms, hcases⟩
      · rintro ⟨chunks, hflat, hcases⟩
        exact ⟨_, chunks, rfl, congrArg some hflat, hcases⟩
  | .compare op left right, outer, others, ctx, ctx', path, chunk, h, _ => by
      unfold rewriteAtom at h
      cases h
      rw [fresh_self_iff]
      unfold hasAttrEq Separable
      simp [generated]
  | .other parts, outer, others, ctx, ctx', path, chunk, h, _ => by
      unfold rewriteAtom at h
      cases h
      rw [fresh_self_iff]
      unfold hasAttrEq Separable
      simp [generated]

/-- The same of the rest of a body: `q` are the atoms before it, `p` what they became. -/
theorem freshBody_iff : ∀ (as : List Atom) {outer names : Set String} {p q : List Atom}
    {ctx : Context} {path : String} {idx : Nat} {chunks : List (List Atom)},
    rewriteAtoms m ctx path idx as = .ok chunks → (∀ x ∈ bodyVars as, x ∈ ctx.usedVars) →
      (∀ t ∈ generated ctx.usedVars ctx.identityTmpSeq as, t ∈ names) →
      Direct p ∪ {t | t ∈ generated ctx.usedVars ctx.identityTmpSeq as} = Direct q ∪ names →
      (∀ x ∈ Inner p, x ∈ ctx.usedVars ∨ x ∉ names) →
      (FreshBody outer p as chunks ↔
        (∀ t ∈ generated ctx.usedVars ctx.identityTmpSeq as, t ∉ outer) ∧
          SeparableAtoms outer names q as)
  | [], outer, names, p, q, ctx, path, idx, chunks, h, _, _, _, _ => by
      unfold rewriteAtoms at h
      cases h
      unfold FreshBody SeparableAtoms
      simp [generated]
  | a :: as, outer, names, p, q, ctx, path, idx, chunks, h, hused, hnames, hdirect, hinner => by
      unfold rewriteAtoms at h
      obtain ⟨⟨chunk, ctx'⟩, ha, h⟩ := bind_ok_iff.mp h
      obtain ⟨rest, hrest, h⟩ := bind_ok_iff.mp h
      cases h
      obtain ⟨hgen, hgrows, htaken⟩ := generated_cons ha as
      have husedA : ∀ x ∈ atomVars a, x ∈ ctx.usedVars := by
        intro x hx
        apply hused
        rw [bodyVars]
        exact List.mem_append_left _ hx
      have husedAs : ∀ x ∈ bodyVars as, x ∈ ctx.usedVars := by
        intro x hx
        apply hused
        rw [bodyVars]
        exact List.mem_append_right _ hx
      have hsep : Separable (outer ∪ Direct (p ++ rest.flatten)) a ↔
          Separable (outer ∪ names ∪ Direct (q ++ as)) a := by
        rw [separable_iff_of_around ha hrest hdirect]
      -- the rest is judged behind `a`: its names are new in the grown context
      have hmore : Separable (outer ∪ names ∪ Direct (q ++ as)) a →
          (FreshBody outer (p ++ chunk) as rest ↔
            (∀ t ∈ generated ctx'.usedVars ctx'.identityTmpSeq as, t ∉ outer) ∧
              SeparableAtoms outer names (q ++ [a]) as) := by
        intro hsepA
        apply freshBody_iff as hrest
        · exact fun x hx => hgrows x (husedAs x hx)
        · intro t ht
          apply hnames
          rw [hgen]
          exact List.mem_append_right _ ht
        · rw [direct_append, direct_append, direct_of_rewrite ha]
          have hall : ∀ x, x ∈ Direct p ∪ {t | t ∈ generated ctx.usedVars ctx.identityTmpSeq (a :: as)}
              ↔ x ∈ Direct q ∪ names := fun x => by rw [hdirect]
          rw [hgen] at hall
          ext x
          have hx := hall x
          simp only [Set.mem_union, Set.mem_ofPred_eq, List.mem_append] at hx ⊢
          tauto
        · intro x hx
          rw [inner_append] at hx
          rcases hx with hx | hx
          · rcases hinner x hx with hin | hout
            · exact .inl (hgrows x hin)
            · exact .inr hout
          · rcases inner_of_rewrite a ha hsepA x hx with hin | hgenA | hout
            · exact .inl (hgrows x (husedA x (innerVars_subset a hin)))
            · exact .inl (htaken x hgenA)
            · exact .inr fun hmem => hout (.inl (.inr hmem))
      unfold FreshBody SeparableAtoms
      rw [hgen]
      constructor
      · rintro ⟨chunk', rest', hcons, hchunk, hbody⟩
        cases hcons
        obtain ⟨hfresh, hsepA⟩ := (fresh_iff a ha husedA).mp hchunk
        obtain ⟨hfreshAs, hsepAs⟩ := (hmore (hsep.mp hsepA)).mp hbody
        refine ⟨?_, hsep.mp hsepA, hsepAs⟩
        intro t ht
        rcases List.mem_append.mp ht with ht | ht
        · exact (hfresh t ht).1
        · exact hfreshAs t ht
      · rintro ⟨hfresh, hsepA, hsepAs⟩
        have hbody := (hmore hsepA).mpr
          ⟨fun t ht => hfresh t (List.mem_append_right _ ht), hsepAs⟩
        refine ⟨chunk, rest, rfl, ?_, hbody⟩
        refine (fresh_iff a ha husedA).mpr ⟨?_, hsep.mpr hsepA⟩
        intro t ht
        refine ⟨hfresh t (List.mem_append_left _ ht), ?_⟩
        have hname : t ∈ names := hnames t (hgen ▸ List.mem_append_left _ ht)
        have hunused : t ∉ ctx.usedVars := generated_fresh t ht
        rw [inner_append]
        rintro (hin | hin)
        · rcases hinner t hin with hused' | hout
          · exact hunused hused'
          · exact hout hname
        -- a name of `a` is used neither before it nor, once it is taken, behind it
        · rcases inner_of_rewrites as hrest hsepAs t hin with hin | hlater | hout
          · exact hunused (husedAs t (innerBodyVars_subset as hin))
          · exact generated_fresh t hlater (htaken t ht)
          · exact hout (.inr hname)

end

end FactGraph.Authoring
