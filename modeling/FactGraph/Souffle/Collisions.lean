import FactGraph.Rules.Reference.Registry
import FactGraph.Souffle.Names

/-!
# Relations that share a name

A program has a relation for each predicate of the schema and for each rule a clause refers to, and
beside them the relations of the generator and of the compiler. Which of them get the name of a
predicate's relation is decided by the spelling of the ids alone (`collisionFree_iff`).
-/

namespace FactGraph.Souffle

open Rules (PyOps RuleKey internalRulePredId)

/-! ## The relations of a program -/

/-- The predicates of a checked schema, and the rules that a clause refers to. -/
structure Vocabulary where
  preds : List String
  preds_ne : ∀ predId ∈ preds, predId ≠ ""
  rules : List RuleKey

/-- What `_expand_ruleref_relations_for_query_export` enters beside the predicates of the schema. -/
def Vocabulary.ruleIds (v : Vocabulary) (py : PyOps) : List String :=
  v.rules.map fun key => internalRulePredId py key.1 key.2

/-- The predicate ids that a program translates. -/
def Vocabulary.ids (v : Vocabulary) (py : PyOps) : List String := v.preds ++ v.ruleIds py

/-- The relations that belong to no predicate or rule of their own. -/
inductive Auxiliary where
  /-- `claim`, `claim_seq`, `claim_arg`, `revokes`, `active`, and what the generator makes of an
  engine name. -/
  | generated (rel : Rel)
  | metaTime
  /-- `_in_rel_name`. -/
  | member (digest : String)
  /-- `_not_rel_name`. -/
  | absent (digest : String)
  /-- `query_rel_for_where`. -/
  | query (digest : String)
  | branch (digest : String) (caseIndex : Nat)
  | reachSeed (branchId : String)
  | reach (branchId : String) (atomIndex : Nat)

def Auxiliary.name : Auxiliary → String
  | .generated rel => rel.name
  | .metaTime => "meta_time"
  | .member digest => "__in_" ++ digest
  | .absent digest => "__not_" ++ digest
  | .query digest => "query__" ++ digest
  | .branch digest caseIndex => "query__" ++ digest ++ s!"__b{caseIndex}_w"
  | .reachSeed branchId => "fg_reach_seed_" ++ branchId
  | .reach branchId atomIndex => "fg_reach_" ++ branchId ++ s!"_{atomIndex}"

/-- The relations beside the predicates' own that a program over these ids can declare. -/
def Auxiliary.Of (ids : List String) : Auxiliary → Prop
  | .generated (.view _) => False
  | .generated (.witness engine) | .generated (.cand engine) | .generated (.maxSeq engine)
  | .generated (.better engine) | .generated (.chosen engine) =>
      ∃ predId ∈ ids, engine = normalizePredId predId
  | _ => True

/-- Every relation has a name of its own, and a predicate's name says which predicate it is. -/
structure Vocabulary.CollisionFree (v : Vocabulary) (py : PyOps) : Prop where
  distinct : ∀ p ∈ v.ids py, ∀ q ∈ v.ids py, p ≠ q → normalizePredId p ≠ normalizePredId q
  readBack : ∀ p ∈ v.ids py, denormalizeEnginePred (normalizePredId p) = .ok p
  rules : ∀ r ∈ v.ruleIds py, ∀ p ∈ v.preds, normalizePredId r ≠ normalizePredId p
  auxiliary : ∀ a : Auxiliary, a.Of (v.ids py) → ∀ p ∈ v.ids py, a.name ≠ normalizePredId p

/-! ## The witness relations -/

theorem toNat_lt_of_isPlain {c : Char} (h : isPlain c = true) : c.toNat < 128 := by
  simp only [isPlain, Bool.and_eq_true, decide_eq_true_eq] at h
  exact h.1

theorem toNat_of_separates {cs : List Char} (h : separates cs = true) : ∀ c ∈ cs, c.toNat < 256 := by
  induction cs with
  | nil => simp
  | cons d cs ih =>
    intro c hc
    by_cases hd : d = ':'
    · subst hd
      simp only [separates, Bool.and_eq_true] at h
      rcases List.mem_cons.mp hc with rfl | hc
      · decide
      · exact ih h.2 c hc
    · rw [separates_cons hd, Bool.and_eq_true, decide_eq_true_eq] at h
      rcases List.mem_cons.mp hc with rfl | hc
      · exact h.1
      · exact ih h.2 c hc

theorem separates_of_isPlain {cs : List Char} (h : ∀ c ∈ cs, isPlain c = true) :
    separates cs = true := by
  induction cs with
  | nil => rfl
  | cons c cs ih =>
    have hc := h c (by simp)
    have hne : c ≠ ':' := by
      intro heq
      subst heq
      exact absurd hc (by decide)
    have hlt := toNat_lt_of_isPlain hc
    rw [separates_cons hne, ih fun d hd => h d (by simp [hd])]
    simp only [Bool.and_true, decide_eq_true_eq]
    omega

/-- What is written at the end for the last character of an id. -/
theorem normalizeChars_concat (cs : List Char) (c : Char) :
    normalizeChars (cs ++ [c]) = normalizeChars cs ++ (normalizeChar c).toList := by
  rw [normalizeChars_append]
  simp [normalizeChars]

/-- A character that is no letter or digit is written with an underscore last. -/
theorem last_normalizeChar {c : Char} (h : isPlain c = false) :
    ∃ cs, (normalizeChar c).toList = cs ++ ['_'] := by
  rcases char_cases c with hc | rfl | rfl | hc
  · rw [h] at hc
    cases hc
  · exact ⟨[], normalizeChar_colon⟩
  · exact ⟨['_'], normalizeChar_underscore⟩
  · exact ⟨'_' :: 'h' :: (hex02 c.toNat).toList, normalizeChar_other hc⟩

/-- A written text that ends with `c` is that of an id whose last character is written so. -/
theorem normalizeChars_eq_concat {ds w : List Char} {c : Char}
    (h : normalizeChars ds = w ++ [c]) : ∃ es e v, ds = es ++ [e] ∧
      (normalizeChar e).toList = v ++ [c] ∧ w = normalizeChars es ++ v := by
  rcases List.eq_nil_or_concat ds with rfl | ⟨es, e, rfl⟩
  · simp [normalizeChars] at h
  · rw [List.concat_eq_append, normalizeChars_concat] at h
    have hne : (normalizeChar e).toList ≠ [] := by
      by_cases he : isPlain e = true
      · rw [normalizeChar_plain he]
        simp
      · obtain ⟨cs, hcs⟩ := head_normalizeChar (by simpa using he)
        rw [hcs]
        simp
    obtain ⟨v, d, hv⟩ := (List.eq_nil_or_concat (normalizeChar e).toList).resolve_left hne
    rw [List.concat_eq_append] at hv
    rw [hv, ← List.append_assoc] at h
    obtain ⟨hw, hd⟩ := List.append_inj' h rfl
    refine ⟨es, e, v, List.concat_eq_append, ?_, hw.symm⟩
    rw [hv, (List.cons.inj hd).1]

theorem witnessClash_of_chars {ps ds : List Char} (hp : separates ps = true)
    (hd : separates ds = true) (h : normalizeChars ds = normalizeChars ps ++ ['_', 'w']) :
    ds = ps ++ [':', 'w'] ∨ (∃ s, ps = s ++ [':'] ∧ ds = s ++ ['_', 'w']) ∨
      ∃ s c, isOther c = true ∧ c.toNat < 256 ∧
        ps = s ++ ':' :: 'h' :: (hex02 c.toNat).toList ∧ ds = s ++ [c, 'w'] := by
  -- the id of the name ends with a `w`
  rw [show normalizeChars ps ++ ['_', 'w'] = (normalizeChars ps ++ ['_']) ++ ['w'] by simp] at h
  obtain ⟨es, e, v, rfl, he, hes⟩ := normalizeChars_eq_concat h
  have hplain : isPlain e = true := by
    by_contra hnot
    obtain ⟨cs, hcs⟩ := last_normalizeChar (by simpa using hnot)
    rw [he] at hcs
    cases (List.append_inj' hcs rfl).2
  rw [normalizeChar_plain hplain] at he
  have hv : v = [] := by simpa using congrArg List.length he
  subst hv
  have hew : e = 'w' := (List.cons.inj he).1
  subst hew
  rw [List.append_nil] at hes
  -- and before it what is written with an underscore last
  obtain ⟨s, d, u, rfl, hdchar, hs⟩ := normalizeChars_eq_concat hes.symm
  have hdplain : isPlain d = false := by
    by_contra hnot
    have hp : isPlain d = true := by simpa using hnot
    rw [normalizeChar_plain hp] at hdchar
    have hu : u = [] := by simpa using congrArg List.length hdchar
    subst hu
    exact isPlain_ne_underscore hp (List.cons.inj hdchar).1
  rw [List.append_assoc, List.singleton_append] at hd
  rw [List.append_assoc, List.singleton_append]
  have hcolon : isPlain ':' = false := by decide
  rcases char_cases d with hc | rfl | rfl | hc
  · rw [hdplain] at hc
    cases hc
  · -- a colon: the rest is `p`
    rw [normalizeChar_colon] at hdchar
    have hu : u = [] := by simpa using congrArg List.length hdchar
    subst hu
    rw [List.append_nil] at hs
    exact .inl (by rw [normalizeChars_inj hp (separates_of_append hd) hs])
  · -- an underscore: `p` ends with a colon
    rw [normalizeChar_underscore] at hdchar
    have hu : u = ['_'] := by
      have := List.append_inj' (show ['_'] ++ ['_'] = u ++ ['_'] from hdchar) rfl
      exact this.1.symm
    subst hu
    have hsep : separates (s ++ [':']) = true := separates_boundary hdplain hcolon hd (by decide)
    refine .inr (.inl ⟨s, ?_, rfl⟩)
    refine normalizeChars_inj hp hsep ?_
    rw [hs, normalizeChars_concat, normalizeChar_colon]
  · -- a code: `p` ends with it, behind a colon
    have hu : u = '_' :: 'h' :: (hex02 d.toNat).toList := by
      rw [normalizeChar_other hc] at hdchar
      exact (List.append_inj' hdchar rfl).1.symm
    subst hu
    have hsmall := toNat_of_separates hd d (by simp)
    have hcode : separates (':' :: 'h' :: (hex02 d.toNat).toList) = true := by
      obtain ⟨x, y, hxy, -⟩ := hex02_small hsmall
      have hdigits : separates ('h' :: (hex02 d.toNat).toList) = true := by
        refine separates_of_isPlain fun c hc => ?_
        rcases List.mem_cons.mp hc with rfl | hc
        · decide
        · exact isPlain_of_isLowerHex (isLowerHex_hex02 hc)
      rw [separates, hdigits, hxy]
      rfl
    have hsep := separates_boundary hdplain hcolon hd hcode
    refine .inr (.inr ⟨s, d, hc, hsmall, ?_, rfl⟩)
    refine normalizeChars_inj hp hsep ?_
    rw [hs, normalizeChars_append, normalizeChars_cons, normalizeChars_cons, normalizeChar_colon,
      normalizeChar_plain (by decide), normalizeChars_hex02]
    rfl

theorem name_witness_iff {p q : String} (hp : Separated p) (hq : Separated q) :
    (Rel.witness (normalizePredId p)).name = normalizePredId q ↔ WitnessClash p q := by
  constructor
  · intro h
    have hchars : normalizeChars q.toList = normalizeChars p.toList ++ ['_', 'w'] := by
      rw [Rel.name, ← String.toList_inj, String.toList_append, toList_normalizePredId,
        toList_normalizePredId] at h
      exact (List.cons.inj (List.cons.inj h).2).2.symm
    rcases witnessClash_of_chars hp hq hchars with hqs | ⟨s, hps, hqs⟩ | ⟨s, c, hc, hsmall, hps, hqs⟩
    · refine .inl ?_
      rw [← String.toList_inj, String.toList_append, hqs]
      rfl
    · refine .inr (.inl ⟨String.ofList s, ?_, ?_⟩)
      · rw [← String.toList_inj, String.toList_append, String.toList_ofList, hps]
        rfl
      · rw [← String.toList_inj, String.toList_append, String.toList_ofList, hqs]
        rfl
    · refine .inr (.inr ⟨String.ofList s, c, hc, hsmall, ?_, ?_⟩)
      · rw [← String.toList_inj, String.toList_append, String.toList_append, String.toList_ofList,
          hps]
        simp
      · rw [← String.toList_inj, String.toList_append, String.toList_append, String.toList_ofList,
          hqs]
        simp
  · intro h
    exact (witnessClash_name h).symm

/-! ## Collisions -/

/-- No other relation's name starts as that of a predicate does. -/
theorem Auxiliary.name_ne {a : Auxiliary} {ids : List String} {q : String} (h : a.Of ids)
    (hwitness : ∀ p ∈ ids, (Rel.witness (normalizePredId p)).name ≠ normalizePredId q) :
    a.name ≠ normalizePredId q := by
  have hstart : ∀ (s t : String) (c : Char) (cs : List Char), s.toList = c :: cs → c ≠ 'p' →
      s ++ t ≠ normalizePredId q := by
    intro s t c cs hs hc heq
    rw [← String.toList_inj, String.toList_append, toList_normalizePredId, hs] at heq
    exact hc (List.cons.inj heq).1
  have hfixed : ∀ (s : String) (c : Char) (cs : List Char), s.toList = c :: cs → c ≠ 'p' →
      s ≠ normalizePredId q := by
    intro s c cs hs hc
    have := hstart s "" c cs hs hc
    rwa [String.append_empty] at this
  cases a with
  | generated rel =>
    cases rel with
    | claim => exact hfixed "claim" 'c' _ rfl (by decide)
    | claimSeq => exact hfixed "claim_seq" 'c' _ rfl (by decide)
    | claimArg => exact hfixed "claim_arg" 'c' _ rfl (by decide)
    | revokes => exact hfixed "revokes" 'r' _ rfl (by decide)
    | active => exact hfixed "active" 'a' _ rfl (by decide)
    | view engine => exact absurd h id
    | witness engine =>
      obtain ⟨p, hp, rfl⟩ := h
      exact hwitness p hp
    | cand engine => exact hstart "cand__" engine 'c' _ rfl (by decide)
    | maxSeq engine => exact hstart "max_seq__" engine 'm' _ rfl (by decide)
    | better engine => exact hstart "better_asrt__" engine 'b' _ rfl (by decide)
    | chosen engine => exact hstart "chosen_asrt__" engine 'c' _ rfl (by decide)
  | metaTime => exact hfixed "meta_time" 'm' _ rfl (by decide)
  | member digest => exact hstart "__in_" digest '_' _ rfl (by decide)
  | absent digest => exact hstart "__not_" digest '_' _ rfl (by decide)
  | query digest => exact hstart "query__" digest 'q' _ rfl (by decide)
  | branch digest caseIndex =>
    rw [Auxiliary.name, String.append_assoc]
    exact hstart "query__" _ 'q' _ rfl (by decide)
  | reachSeed branchId => exact hstart "fg_reach_seed_" branchId 'f' _ rfl (by decide)
  | reach branchId atomIndex =>
    rw [Auxiliary.name, String.append_assoc]
    exact hstart "fg_reach_" _ 'f' _ rfl (by decide)

/-- Relations are named apart just if every id is read back, none is spelled like the witness
relation of another, and no rule has the id of a predicate. -/
theorem collisionFree_iff (v : Vocabulary) (py : PyOps) :
    v.CollisionFree py ↔ (∀ p ∈ v.ids py, Separated p) ∧
      (∀ p ∈ v.ids py, ∀ q ∈ v.ids py, ¬ WitnessClash p q) ∧
      ∀ r ∈ v.ruleIds py, r ∉ v.preds := by
  constructor
  · intro h
    have hsep : ∀ p ∈ v.ids py, Separated p := fun p hp =>
      (denormalizeEnginePred_normalizePredId p).mp (h.readBack p hp)
    refine ⟨hsep, ?_, ?_⟩
    · intro p hp q hq hclash
      have hname := (name_witness_iff (hsep p hp) (hsep q hq)).mpr hclash
      exact h.auxiliary (.generated (.witness (normalizePredId p))) ⟨p, hp, rfl⟩ q hq hname
    · intro r hr hpred
      exact h.rules r hr r hpred rfl
  · intro ⟨hsep, hclash, hrules⟩
    have hinj : ∀ p ∈ v.ids py, ∀ q ∈ v.ids py, normalizePredId p = normalizePredId q → p = q := by
      intro p hp q hq heq
      have hread := (denormalizeEnginePred_normalizePredId p).mpr (hsep p hp)
      rw [heq, (denormalizeEnginePred_normalizePredId q).mpr (hsep q hq)] at hread
      injection hread with hread
      exact hread.symm
    refine ⟨?_, ?_, ?_, ?_⟩
    · intro p hp q hq hne heq
      exact hne (hinj p hp q hq heq)
    · intro p hp
      exact (denormalizeEnginePred_normalizePredId p).mpr (hsep p hp)
    · intro r hr p hp heq
      have hids : r = p := hinj r (List.mem_append_right _ hr) p (List.mem_append_left _ hp) heq
      subst hids
      exact hrules r hr hp
    · intro a ha q hq
      refine Auxiliary.name_ne ha fun p hp hname => ?_
      exact hclash p hp q hq ((name_witness_iff (hsep p hp) (hsep q hq)).mp hname)

/-- `user:_id` and `user_:id` are both the relation `p_user___id`. -/
theorem collision_user_id : ¬ (Vocabulary.mk ["user:_id", "user_:id"] (by decide) []).CollisionFree
    PyOps.ascii := by
  intro h
  exact h.distinct "user:_id" (by decide) "user_:id" (by decide) (by decide) (by decide)

end FactGraph.Souffle
