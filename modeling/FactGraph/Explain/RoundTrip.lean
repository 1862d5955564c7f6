import FactGraph.Explain.Graph

/-!
# Evidence graphs there and back

What is read back from a written graph is its normal form: lists have become tuples, the keys of
mappings their strings, a verdict without a certainty has that of truth, and an event that is no atom is
gone. Nothing else is lost. It is read back if and only if its texts have a character and its
`Literal`s are what they are declared to be.
-/

namespace FactGraph.Explain

open Protocol Store Check Codec

variable {K V : Type} (host : Host K V)

/-! ## Objects -/

theorem map_set {K W X : Type} [DecidableEq K] (f : W → X) (d : List (K × W)) (k : K) (w : W) :
    (Dict.set d k w).map (fun p => (p.1, f p.2)) =
      Dict.set (d.map fun p => (p.1, f p.2)) k (f w) := by
  induction d with
  | nil => rfl
  | cons p d ih =>
    obtain ⟨k', w'⟩ := p
    rw [Dict.set, List.map_cons, Dict.set]
    split
    · rw [List.map_cons]
    · rw [List.map_cons, ih]

theorem map_update {K W X : Type} [DecidableEq K] (f : W → X) (d e : List (K × W)) :
    (Dict.update d e).map (fun p => (p.1, f p.2)) =
      Dict.update (d.map fun p => (p.1, f p.2)) (e.map fun p => (p.1, f p.2)) := by
  unfold Dict.update
  induction e generalizing d with
  | nil => rfl
  | cons p e ih => rw [List.foldl_cons, ih, map_set, List.map_cons, List.foldl_cons]

mutual

/-- An object with its lists as tuples and its keys as strings. -/
def PyValue.normal : PyValue K V → PyValue K V
  | .leaf l => .leaf l
  | .list xs => .tuple (normalItems xs)
  | .tuple xs => .tuple (normalItems xs)
  | .mapping fs => .mapping ((Dict.update [] (normalFields fs)).map fun p => (.str p.1, p.2))

def normalItems : List (PyValue K V) → List (PyValue K V)
  | [] => []
  | x :: xs => x.normal :: normalItems xs

def normalFields : List (Key K × PyValue K V) → List (String × PyValue K V)
  | [] => []
  | (key, x) :: fs => (key.text host.keyStr, x.normal) :: normalFields fs

end

mutual

/-- An object without lists, whose mappings have each of their keys once, and strings for them. -/
def PyValue.Plain : PyValue K V → Prop
  | .leaf _ => True
  | .list _ => False
  | .tuple xs => PlainItems xs
  | .mapping fs => (fs.map Prod.fst).Nodup ∧ PlainFields fs

def PlainItems : List (PyValue K V) → Prop
  | [] => True
  | x :: xs => x.Plain ∧ PlainItems xs

def PlainFields : List (Key K × PyValue K V) → Prop
  | [] => True
  | (.str _, x) :: fs => x.Plain ∧ PlainFields fs
  | (.other _, _) :: _ => False

end

theorem fromJsonableFields_eq (fs : List (String × Row V)) :
    fromJsonableFields (K := K) fs = fs.map fun p => (.str p.1, fromJsonable p.2) := by
  induction fs with
  | nil => rfl
  | cons p fs ih => rw [fromJsonableFields, ih, List.map_cons]

mutual

theorem fromJsonable_toJsonable : ∀ v : PyValue K V,
    fromJsonable (toJsonable host v) = v.normal host
  | .leaf l => rfl
  | .list xs => by
    rw [toJsonable, fromJsonable, PyValue.normal, fromJsonableItems_toJsonableItems xs]
  | .tuple xs => by
    rw [toJsonable, fromJsonable, PyValue.normal, fromJsonableItems_toJsonableItems xs]
  | .mapping fs => by
    have hupdate := map_update (fromJsonable (K := K)) [] (toJsonableFields host fs)
    rw [map_fromJsonable_toJsonable fs, List.map_nil] at hupdate
    rw [toJsonable, fromJsonable, PyValue.normal, fromJsonableFields_eq, ← hupdate, List.map_map]
    rfl

theorem fromJsonableItems_toJsonableItems : ∀ xs : List (PyValue K V),
    fromJsonableItems (toJsonableItems host xs) = normalItems host xs
  | [] => rfl
  | x :: xs => by
    rw [toJsonableItems, fromJsonableItems, normalItems, fromJsonable_toJsonable x,
      fromJsonableItems_toJsonableItems xs]

theorem map_fromJsonable_toJsonable : ∀ fs : List (Key K × PyValue K V),
    (toJsonableFields host fs).map (fun p => (p.1, fromJsonable p.2)) = normalFields host fs
  | [] => rfl
  | (key, x) :: fs => by
    rw [toJsonableFields, List.map_cons, normalFields, fromJsonable_toJsonable x,
      map_fromJsonable_toJsonable fs]

end

theorem keys_normalFields (fs : List (Key K × PyValue K V)) :
    Dict.keys (normalFields host fs) = fs.map fun p => p.1.text host.keyStr := by
  induction fs with
  | nil => rfl
  | cons p fs ih =>
    rw [normalFields, List.map_cons, ← ih]
    rfl

/-- The keys of a mapping that is its normal form are strings, each of them there once. -/
theorem keys_of_normal {fs : List (Key K × PyValue K V)}
    (h : (PyValue.mapping fs).normal host = .mapping fs) :
    (fs.map Prod.fst).Nodup ∧ ∀ p ∈ fs, ∃ s, p.1 = .str s := by
  rw [PyValue.normal, PyValue.mapping.injEq] at h
  constructor
  · rw [← h, List.map_map]
    have hnodup := Dict.nodup_keys_update (d := []) List.nodup_nil (normalFields host fs)
    have hinj : Function.Injective (Key.str (K := K)) := fun _ _ hs => Key.str.inj hs
    have hkeys := hnodup.map hinj
    rwa [Dict.keys, List.map_map] at hkeys
  · intro p hp
    rw [← h] at hp
    obtain ⟨q, -, rfl⟩ := List.mem_map.mp hp
    exact ⟨q.1, rfl⟩

/-- Strings that are there once are written as they are. -/
theorem update_normalFields {fs : List (Key K × PyValue K V)} (hnodup : (fs.map Prod.fst).Nodup)
    (hstr : ∀ p ∈ fs, ∃ s, p.1 = .str s) :
    Dict.update [] (normalFields host fs) = normalFields host fs := by
  have hkeys : (Dict.keys (normalFields host fs)).map Key.str = fs.map Prod.fst := by
    rw [keys_normalFields, List.map_map]
    apply List.map_congr_left
    intro p hp
    obtain ⟨s, hs⟩ := hstr p hp
    simp [hs, Key.text]
  refine Dict.update_append ?_
  rw [List.nil_append]
  rw [← hkeys] at hnodup
  exact hnodup.of_map _

theorem PlainFields.strings {fs : List (Key K × PyValue K V)} (h : PlainFields fs) :
    ∀ p ∈ fs, ∃ s, p.1 = .str s := by
  induction fs with
  | nil => simp
  | cons p fs ih =>
    obtain ⟨key, x⟩ := p
    cases key with
    | other k => exact absurd h (by simp [PlainFields])
    | str k =>
      intro q hq
      rcases List.mem_cons.mp hq with rfl | hq
      · exact ⟨k, rfl⟩
      · exact ih h.2 q hq

mutual

theorem normal_eq_iff : ∀ v : PyValue K V, v.normal host = v ↔ v.Plain
  | .leaf l => by simp [PyValue.normal, PyValue.Plain]
  | .list xs => by simp [PyValue.normal, PyValue.Plain]
  | .tuple xs => by rw [PyValue.normal, PyValue.Plain, PyValue.tuple.injEq, normalItems_eq_iff xs]
  | .mapping fs => by
    constructor
    · intro h
      obtain ⟨hnodup, hstr⟩ := keys_of_normal host h
      refine ⟨hnodup, ?_⟩
      rw [← normalFields_eq_iff fs hstr]
      rwa [PyValue.normal, PyValue.mapping.injEq, update_normalFields host hnodup hstr] at h
    · rintro ⟨hnodup, hplain⟩
      have hstr := PlainFields.strings hplain
      rw [PyValue.normal, PyValue.mapping.injEq, update_normalFields host hnodup hstr]
      exact (normalFields_eq_iff fs hstr).mpr hplain

theorem normalItems_eq_iff : ∀ xs : List (PyValue K V), normalItems host xs = xs ↔ PlainItems xs
  | [] => by simp [normalItems, PlainItems]
  | x :: xs => by
    rw [normalItems, PlainItems, List.cons.injEq, normal_eq_iff x, normalItems_eq_iff xs]

theorem normalFields_eq_iff : ∀ fs : List (Key K × PyValue K V),
    (∀ p ∈ fs, ∃ s, p.1 = .str s) →
      ((normalFields host fs).map (fun p => (Key.str p.1, p.2)) = fs ↔ PlainFields fs)
  | [], _ => by simp [normalFields, PlainFields]
  | (.str k, x) :: fs, h => by
    have hrest := normalFields_eq_iff fs fun p hp => h p (List.mem_cons_of_mem _ hp)
    rw [normalFields, List.map_cons, PlainFields, List.cons.injEq, hrest, Prod.mk.injEq,
      normal_eq_iff x]
    simp [Key.text]
  | (.other k, x) :: fs, h => by
    obtain ⟨s, hs⟩ := h _ List.mem_cons_self
    cases hs

end

/-- A mapping in its normal form. -/
def normalMapping (fs : List (Key K × PyValue K V)) : List (Key K × PyValue K V) :=
  (Dict.update [] (normalFields host fs)).map fun p => (.str p.1, p.2)

theorem normalMapping_eq_iff (fs : List (Key K × PyValue K V)) :
    normalMapping host fs = fs ↔ (PyValue.mapping fs).Plain := by
  rw [← normal_eq_iff host, PyValue.normal, PyValue.mapping.injEq, normalMapping]

theorem requireMapping_ok_iff {fieldName : String} {fs gs : List (Key K × PyValue K V)} :
    requireMapping fieldName (some (mappingToJsonable host fs)) = .ok gs ↔
      gs = normalMapping host fs := by
  have h := fromJsonable_toJsonable host (.mapping fs)
  rw [toJsonable, fromJsonable, PyValue.normal, PyValue.mapping.injEq] at h
  rw [mappingToJsonable, toJsonable, requireMapping, h, Except.ok.injEq]
  exact eq_comm

/-! ## Texts and certainties -/

/-- A text that is missing or has a character. -/
def OptText (o : Option String) : Prop := ∀ s ∈ o, s ≠ ""

theorem requireStr_ok_iff {fieldName s t : String} :
    requireStr fieldName (str s : Row V) = .ok t ↔ s ≠ "" ∧ t = s := by
  unfold requireStr str
  split
  · rename_i s' heq
    cases heq
    split
    · rename_i hs
      simp [hs, eq_comm]
    · rename_i hs
      simp [hs]
  · rename_i hne
    exact absurd rfl (hne s)

theorem optionalStr_ok_iff {fieldName : String} {o t : Option String} :
    optionalStr fieldName (optStr o : Row V) = .ok t ↔ OptText o ∧ t = o := by
  cases o with
  | none => simp [optStr, optionalStr, OptText, eq_comm]
  | some s =>
    rw [optStr, optionalStr, map_ok_iff]
    · simp only [requireStr_ok_iff, OptText, Option.mem_def, Option.some.injEq, forall_eq']
      constructor
      · rintro ⟨t', ⟨hs, rfl⟩, rfl⟩
        exact ⟨hs, rfl⟩
      · rintro ⟨hs, rfl⟩
        exact ⟨s, ⟨hs, rfl⟩, rfl⟩
    · simp [str]

theorem optionalInt_ok_iff {fieldName : String} {o t : Option Int} :
    optionalInt fieldName (optInt o : Row V) = .ok t ↔ t = o := by
  cases o <;> simp [optInt, optionalInt, eq_comm]

theorem requireLiteral_ok_iff {allowed : List String} {msg s t : String} :
    requireLiteral allowed msg (str s : Row V) = .ok t ↔ s ∈ allowed ∧ t = s := by
  unfold requireLiteral str
  by_cases hs : s ∈ allowed <;> simp [hs, eq_comm]

theorem certaintyFromDict_ok_iff {o t : Option Certainty} :
    certaintyFromDict (certaintyToDict o : Row V) = .ok t ↔ t = o := by
  cases o with
  | none => simp [certaintyToDict, certaintyFromDict, eq_comm]
  | some c =>
    have hmake : Certainty.make c.lo c.hi c.kind = .ok c := by
      unfold Certainty.make
      rw [dif_pos c.kind_mem, dif_pos c.lo_bound, dif_pos c.hi_bound, dif_pos c.lo_le]
    have hkind : requireCertaintyKind (str c.kind : Row V) = .ok c.kind :=
      requireLiteral_ok_iff.mpr ⟨c.kind_mem, rfl⟩
    have hread : certaintyFromDict (certaintyToDict (some c) : Row V) = .ok (some c) := by
      simp only [certaintyToDict, certaintyFromDict, requireRow, ok_bind, field, Dict.get?_cons,
        String.reduceEq, if_true, if_false, Option.getD_some, requireFloat, hkind, hmake]
      rfl
    rw [hread, Except.ok.injEq]
    exact eq_comm

/-! ## Records -/

/-- What is read back of a list, from what is read back of each of its items. -/
theorem mapOk_map_ok_iff {α β γ : Type} {read : β → Except CodecErr γ} {write : α → β} {P : α → Prop}
    {n : α → γ} (h : ∀ a c, read (write a) = .ok c ↔ P a ∧ c = n a) {as : List α} {cs : List γ} :
    mapOk read (as.map write) = .ok cs ↔ (∀ a ∈ as, P a) ∧ cs = as.map n := by
  induction as generalizing cs with
  | nil => simp [mapOk, eq_comm]
  | cons a as ih =>
    simp only [List.map_cons, mapOk, bind_ok_iff, h, ih, Except.ok.injEq, List.forall_mem_cons]
    constructor
    · rintro ⟨_, ⟨ha, rfl⟩, _, ⟨has, rfl⟩, rfl⟩
      exact ⟨⟨ha, has⟩, rfl⟩
    · rintro ⟨⟨ha, has⟩, rfl⟩
      exact ⟨_, ⟨ha, rfl⟩, _, ⟨has, rfl⟩, rfl⟩

def Source.Readable (source : Source K V) : Prop := source.ref ≠ "" ∧ OptText source.field

def Source.normal (source : Source K V) : Source K V :=
  ⟨source.ref, source.field, source.value.normal host, normalMapping host source.metadata⟩

theorem sourceFromDict_ok_iff {source source' : Source K V} :
    sourceFromDict (sourceToDict host source) = .ok source' ↔
      source.Readable ∧ source' = source.normal host := by
  simp only [sourceFromDict, sourceToDict, requireRow, ok_bind, field, Dict.get?_cons,
    String.reduceEq, if_true, if_false, Option.getD_some, bind_ok_iff, requireStr_ok_iff,
    optionalStr_ok_iff, requireMapping_ok_iff, fromJsonable_toJsonable, Except.ok.injEq]
  constructor
  · rintro ⟨_, ⟨href, rfl⟩, _, ⟨hfield, rfl⟩, _, rfl, rfl⟩
    exact ⟨⟨href, hfield⟩, rfl⟩
  · rintro ⟨⟨href, hfield⟩, rfl⟩
    exact ⟨_, ⟨href, rfl⟩, _, ⟨hfield, rfl⟩, _, rfl, rfl⟩

/-- A verdict without a certainty has that of truth. -/
def normalCertainty (certainty : Option Certainty) : Option Certainty :=
  some (certainty.getD booleanCertainty)

def Verdict.Readable : Verdict K V → Prop
  | .holds _ support | .fails _ support => ∀ source ∈ support, source.Readable
  | .notReached blockedBy => OptText blockedBy

def Verdict.normal : Verdict K V → Verdict K V
  | .holds certainty support => .holds (normalCertainty certainty) (support.map (Source.normal host))
  | .fails certainty support => .fails (normalCertainty certainty) (support.map (Source.normal host))
  | .notReached blockedBy => .notReached blockedBy

theorem verdictFromDict_ok_iff {verdict verdict' : Verdict K V} :
    verdictFromDict (verdictToDict host verdict) = .ok verdict' ↔
      verdict.Readable ∧ verdict' = verdict.normal host := by
  cases verdict with
  | holds certainty support =>
    simp only [verdictFromDict, verdictToDict, requireRow, ok_bind, field, fieldOrEmpty, str,
      Dict.get?_cons, String.reduceEq, if_true, if_false, Option.getD_some, bind_ok_iff, requireList,
      certaintyFromDict_ok_iff, mapOk_map_ok_iff (fun _ _ => sourceFromDict_ok_iff host),
      Except.ok.injEq]
    constructor
    · rintro ⟨_, rfl, _, ⟨hsupport, rfl⟩, rfl⟩
      exact ⟨hsupport, rfl⟩
    · rintro ⟨hsupport, rfl⟩
      exact ⟨_, rfl, _, ⟨hsupport, rfl⟩, rfl⟩
  | fails certainty support =>
    simp only [verdictFromDict, verdictToDict, requireRow, ok_bind, field, fieldOrEmpty, str,
      Dict.get?_cons, String.reduceEq, if_true, if_false, Option.getD_some, bind_ok_iff, requireList,
      certaintyFromDict_ok_iff, mapOk_map_ok_iff (fun _ _ => sourceFromDict_ok_iff host),
      Except.ok.injEq]
    constructor
    · rintro ⟨_, rfl, _, ⟨hsupport, rfl⟩, rfl⟩
      exact ⟨hsupport, rfl⟩
    · rintro ⟨hsupport, rfl⟩
      exact ⟨_, rfl, _, ⟨hsupport, rfl⟩, rfl⟩
  | notReached blockedBy =>
    simp only [verdictFromDict, verdictToDict, requireRow, ok_bind, field, str,
      Dict.get?_cons, String.reduceEq, if_true, if_false, Option.getD_some, map_ok_iff,
      optionalStr_ok_iff]
    constructor
    · rintro ⟨_, ⟨hblocked, rfl⟩, rfl⟩
      exact ⟨hblocked, rfl⟩
    · rintro ⟨hblocked, rfl⟩
      exact ⟨_, ⟨hblocked, rfl⟩, rfl⟩

def EvidenceTerm.Readable : EvidenceTerm K V → Prop
  | .boundVar name _ boundBy => name ≠ "" ∧ OptText boundBy
  | .const _ => True

def EvidenceTerm.normal : EvidenceTerm K V → EvidenceTerm K V
  | .boundVar name value boundBy => .boundVar name (value.normal host) boundBy
  | .const value => .const (value.normal host)

theorem termFromDict_ok_iff {term term' : EvidenceTerm K V} :
    termFromDict (termToDict host term) = .ok term' ↔
      term.Readable ∧ term' = term.normal host := by
  cases term with
  | boundVar name value boundBy =>
    have hname : ∀ {t}, requireStr "term.name" (.leaf (.str name) : Row V) = .ok t ↔
        name ≠ "" ∧ t = name := requireStr_ok_iff
    simp only [termFromDict, termToDict, requireRow, ok_bind, field, str, Dict.get?_cons,
      String.reduceEq, if_true, if_false, Option.getD_some, bind_ok_iff, hname, optionalStr_ok_iff,
      fromJsonable_toJsonable, Except.ok.injEq]
    constructor
    · rintro ⟨_, ⟨hname, rfl⟩, _, ⟨hbound, rfl⟩, rfl⟩
      exact ⟨⟨hname, hbound⟩, rfl⟩
    · rintro ⟨⟨hname, hbound⟩, rfl⟩
      exact ⟨_, ⟨hname, rfl⟩, _, ⟨hbound, rfl⟩, rfl⟩
  | const value =>
    simp only [termFromDict, termToDict, requireRow, ok_bind, field, str, Dict.get?_cons,
      String.reduceEq, if_true, if_false, Option.getD_some, fromJsonable_toJsonable, Except.ok.injEq,
      EvidenceTerm.Readable, EvidenceTerm.normal, true_and]
    exact eq_comm

def TermsReadable (terms : List (EvidenceTerm K V)) : Prop := ∀ term ∈ terms, term.Readable

theorem termsFromDict_ok_iff {fieldName : String} {terms terms' : List (EvidenceTerm K V)} :
    termsFromDict fieldName (.arr (terms.map (termToDict host))) = .ok terms' ↔
      TermsReadable terms ∧ terms' = terms.map (EvidenceTerm.normal host) := by
  rw [termsFromDict, requireList, ok_bind, mapOk_map_ok_iff fun _ _ => termFromDict_ok_iff host]
  rfl

def AtomForm.Readable : AtomForm K V → Prop
  | .fact predicate terms => predicate ≠ "" ∧ TermsReadable terms
  | .compare op left right => op ≠ "" ∧ left.Readable ∧ right.Readable
  | .builtin kind operands => kind ≠ "" ∧ TermsReadable operands
  | .aggregate kind bodyTerms headTerms =>
      kind ≠ "" ∧ TermsReadable bodyTerms ∧ TermsReadable headTerms

def AtomForm.normal : AtomForm K V → AtomForm K V
  | .fact predicate terms => .fact predicate (terms.map (EvidenceTerm.normal host))
  | .compare op left right => .compare op (left.normal host) (right.normal host)
  | .builtin kind operands => .builtin kind (operands.map (EvidenceTerm.normal host))
  | .aggregate kind bodyTerms headTerms =>
      .aggregate kind (bodyTerms.map (EvidenceTerm.normal host))
        (headTerms.map (EvidenceTerm.normal host))

theorem formFromDict_ok_iff {form form' : AtomForm K V} :
    formFromDict (formToDict host form) = .ok form' ↔
      form.Readable ∧ form' = form.normal host := by
  have hstr : ∀ {fieldName s t : String},
      requireStr fieldName (.leaf (.str s) : Row V) = .ok t ↔ s ≠ "" ∧ t = s := requireStr_ok_iff
  cases form with
  | fact predicate terms =>
    simp only [formFromDict, formToDict, requireRow, ok_bind, field, fieldOrEmpty, str,
      Dict.get?_cons, String.reduceEq, if_true, if_false, Option.getD_some, bind_ok_iff, hstr,
      termsFromDict_ok_iff, Except.ok.injEq]
    constructor
    · rintro ⟨_, ⟨hpredicate, rfl⟩, _, ⟨hterms, rfl⟩, rfl⟩
      exact ⟨⟨hpredicate, hterms⟩, rfl⟩
    · rintro ⟨⟨hpredicate, hterms⟩, rfl⟩
      exact ⟨_, ⟨hpredicate, rfl⟩, _, ⟨hterms, rfl⟩, rfl⟩
  | compare op left right =>
    simp only [formFromDict, formToDict, requireRow, ok_bind, field, str, Dict.get?_cons,
      String.reduceEq, if_true, if_false, Option.getD_some, bind_ok_iff, hstr,
      termFromDict_ok_iff, Except.ok.injEq]
    constructor
    · rintro ⟨_, ⟨hop, rfl⟩, _, ⟨hleft, rfl⟩, _, ⟨hright, rfl⟩, rfl⟩
      exact ⟨⟨hop, hleft, hright⟩, rfl⟩
    · rintro ⟨⟨hop, hleft, hright⟩, rfl⟩
      exact ⟨_, ⟨hop, rfl⟩, _, ⟨hleft, rfl⟩, _, ⟨hright, rfl⟩, rfl⟩
  | builtin kind operands =>
    simp only [formFromDict, formToDict, requireRow, ok_bind, field, fieldOrEmpty, str,
      Dict.get?_cons, String.reduceEq, if_true, if_false, Option.getD_some, bind_ok_iff, hstr,
      termsFromDict_ok_iff, Except.ok.injEq]
    constructor
    · rintro ⟨_, ⟨hkind, rfl⟩, _, ⟨hoperands, rfl⟩, rfl⟩
      exact ⟨⟨hkind, hoperands⟩, rfl⟩
    · rintro ⟨⟨hkind, hoperands⟩, rfl⟩
      exact ⟨_, ⟨hkind, rfl⟩, _, ⟨hoperands, rfl⟩, rfl⟩
  | aggregate kind bodyTerms headTerms =>
    simp only [formFromDict, formToDict, requireRow, ok_bind, field, fieldOrEmpty, str,
      Dict.get?_cons, String.reduceEq, if_true, if_false, Option.getD_some, bind_ok_iff, hstr,
      termsFromDict_ok_iff, Except.ok.injEq]
    constructor
    · rintro ⟨_, ⟨hkind, rfl⟩, _, ⟨hbody, rfl⟩, _, ⟨hhead, rfl⟩, rfl⟩
      exact ⟨⟨hkind, hbody, hhead⟩, rfl⟩
    · rintro ⟨⟨hkind, hbody, hhead⟩, rfl⟩
      exact ⟨_, ⟨hkind, rfl⟩, _, ⟨hbody, rfl⟩, _, ⟨hhead, rfl⟩, rfl⟩

def EvidenceAtom.Readable (atom : EvidenceAtom K V) : Prop :=
  atom.form.Readable ∧ atom.verdict.Readable ∧ atom.atomId ≠ "" ∧ OptText atom.reprText

def EvidenceAtom.normal (atom : EvidenceAtom K V) : EvidenceAtom K V :=
  { atom with form := atom.form.normal host, verdict := atom.verdict.normal host }

/-- What the reader meets in a written atom. -/
theorem atomFromDict_toDict (atom : EvidenceAtom K V) :
    atomFromDict host (atomToDict host atom) = (do
      let form ← formFromDict (formToDict host atom.form)
      let verdict ← verdictFromDict (verdictToDict host atom.verdict)
      let atomId ← requireStr "atom.atom_id" (str atom.atomId : Row V)
      let reprText ← optionalStr "atom.repr_text" (optStr atom.reprText : Row V)
      let timestep ← optionalInt "atom.timestep" (optInt atom.timestep : Row V)
      .ok ⟨form, verdict, atomId, reprText, atom.negated, timestep⟩) := rfl

theorem atomFromDict_ok_iff {atom atom' : EvidenceAtom K V} :
    atomFromDict host (atomToDict host atom) = .ok atom' ↔
      atom.Readable ∧ atom' = atom.normal host := by
  simp only [atomFromDict_toDict, bind_ok_iff, formFromDict_ok_iff, verdictFromDict_ok_iff,
    requireStr_ok_iff, optionalStr_ok_iff, optionalInt_ok_iff]
  constructor
  · rintro ⟨_, ⟨hform, rfl⟩, _, ⟨hverdict, rfl⟩, _, ⟨hatom, rfl⟩, _, ⟨hrepr, rfl⟩, _, rfl, h⟩
    exact ⟨⟨hform, hverdict, hatom, hrepr⟩, (Except.ok.inj h).symm⟩
  · rintro ⟨⟨hform, hverdict, hatom, hrepr⟩, rfl⟩
    exact ⟨_, ⟨hform, rfl⟩, _, ⟨hverdict, rfl⟩, _, ⟨hatom, rfl⟩, _, ⟨hrepr, rfl⟩, _, rfl, rfl⟩

def PortRef.Readable (port : PortRef) : Prop := port.ruleOccurrenceAlias ≠ "" ∧ port.portName ≠ ""

theorem portRefFromDict_toDict (port : PortRef) :
    portRefFromDict (portRefToDict port : Row V) = (do
      let ruleOccurrenceAlias ← requireStr "port.rule_occurrence_alias"
        (str port.ruleOccurrenceAlias : Row V)
      let portName ← requireStr "port.port_name" (str port.portName : Row V)
      .ok ⟨ruleOccurrenceAlias, portName⟩) := rfl

theorem portRefFromDict_ok_iff {port port' : PortRef} :
    portRefFromDict (portRefToDict port : Row V) = .ok port' ↔ port.Readable ∧ port' = port := by
  simp only [portRefFromDict_toDict, bind_ok_iff, requireStr_ok_iff, Except.ok.injEq]
  constructor
  · rintro ⟨_, ⟨halias, rfl⟩, _, ⟨hname, rfl⟩, rfl⟩
    exact ⟨⟨halias, hname⟩, rfl⟩
  · rintro ⟨⟨halias, hname⟩, rfl⟩
    exact ⟨_, ⟨halias, rfl⟩, _, ⟨hname, rfl⟩, rfl⟩

def EvidencePolicyCondition.normal (condition : EvidencePolicyCondition K V) :
    EvidencePolicyCondition K V :=
  { condition with atom := condition.atom.normal host }

theorem policyConditionFromDict_toDict (condition : EvidencePolicyCondition K V) :
    policyConditionFromDict host (policyConditionToDict host condition) = (do
      let policyNodeId ← requireStr "policy_condition.policy_node_id"
        (str condition.policyNodeId : Row V)
      let conditionId ← requireStr "policy_condition.condition_id" (str condition.conditionId : Row V)
      let role ← requirePolicyConditionRole (str condition.role : Row V)
      let atom ← atomFromDict host (atomToDict host condition.atom)
      EvidencePolicyCondition.make policyNodeId conditionId role atom) := rfl

theorem policyConditionFromDict_ok_iff {condition condition' : EvidencePolicyCondition K V} :
    policyConditionFromDict host (policyConditionToDict host condition) = .ok condition' ↔
      condition.atom.Readable ∧ condition' = condition.normal host := by
  have hmake : ∀ atom : EvidenceAtom K V, EvidencePolicyCondition.make condition.policyNodeId condition.conditionId
      condition.role atom = .ok { condition with atom := atom } := by
    intro atom
    unfold EvidencePolicyCondition.make
    rw [dif_pos condition.policyNodeId_ne, dif_pos condition.conditionId_ne,
      dif_pos condition.role_mem]
  simp only [policyConditionFromDict_toDict, requirePolicyConditionRole, bind_ok_iff,
    requireStr_ok_iff, requireLiteral_ok_iff, atomFromDict_ok_iff]
  constructor
  · rintro ⟨_, ⟨-, rfl⟩, _, ⟨-, rfl⟩, _, ⟨-, rfl⟩, _, ⟨hatom, rfl⟩, h⟩
    rw [hmake] at h
    exact ⟨hatom, (Except.ok.inj h).symm⟩
  · rintro ⟨hatom, rfl⟩
    exact ⟨_, ⟨condition.policyNodeId_ne, rfl⟩, _, ⟨condition.conditionId_ne, rfl⟩, _,
      ⟨condition.role_mem, rfl⟩, _, ⟨hatom, rfl⟩, hmake _⟩

def EvidenceJoin.Readable (join : EvidenceJoin) : Prop :=
  join.left.Readable ∧ join.right.Readable ∧ join.status ∈ treeStatuses ∧ join.joinId ≠ ""

theorem joinFromDict_toDict (join : EvidenceJoin) :
    joinFromDict (joinToDict join : Row V) = (do
      let left ← portRefFromDict (portRefToDict join.left : Row V)
      let right ← portRefFromDict (portRefToDict join.right : Row V)
      let status ← requireTreeStatus "join.status" (str join.status : Row V)
      let joinId ← requireStr "join.join_id" (str join.joinId : Row V)
      .ok ⟨left, right, status, joinId⟩) := rfl

theorem joinFromDict_ok_iff {join join' : EvidenceJoin} :
    joinFromDict (joinToDict join : Row V) = .ok join' ↔ join.Readable ∧ join' = join := by
  simp only [joinFromDict_toDict, requireTreeStatus, bind_ok_iff, portRefFromDict_ok_iff,
    requireStr_ok_iff, requireLiteral_ok_iff, Except.ok.injEq]
  constructor
  · rintro ⟨_, ⟨hleft, rfl⟩, _, ⟨hright, rfl⟩, _, ⟨hstatus, rfl⟩, _, ⟨hjoin, rfl⟩, rfl⟩
    exact ⟨⟨hleft, hright, hstatus, hjoin⟩, rfl⟩
  · rintro ⟨⟨hleft, hright, hstatus, hjoin⟩, rfl⟩
    exact ⟨_, ⟨hleft, rfl⟩, _, ⟨hright, rfl⟩, _, ⟨hstatus, rfl⟩, _, ⟨hjoin, rfl⟩, rfl⟩

structure EvidenceRule.Readable (rule : EvidenceRule K V) : Prop where
  occurrenceAlias : rule.occurrenceAlias ≠ ""
  ruleId : rule.ruleId ≠ ""
  role : rule.role ∈ ruleRoles
  status : rule.status ∈ treeStatuses
  reprText : OptText rule.reprText
  atoms : ∀ atom ∈ rule.atoms, atom.Readable

def EvidenceRule.normal (rule : EvidenceRule K V) : EvidenceRule K V :=
  { rule with
    ports := normalMapping host rule.ports
    atoms := rule.atoms.map (EvidenceAtom.normal host) }

theorem ruleFromDict_toDict (rule : EvidenceRule K V) :
    ruleFromDict host (ruleToDict host rule) = (do
      let occurrenceAlias ← requireStr "rule.occurrence_alias" (str rule.occurrenceAlias : Row V)
      let ruleId ← requireStr "rule.rule_id" (str rule.ruleId : Row V)
      let role ← requireRole (str rule.role : Row V)
      let status ← requireTreeStatus "rule.status" (str rule.status : Row V)
      let reprText ← optionalStr "rule.repr_text" (optStr rule.reprText : Row V)
      let ports ← requireMapping "rule.ports" (some (mappingToJsonable host rule.ports))
      let atoms ← mapOk (atomFromDict host) (rule.atoms.map (atomToDict host))
      .ok ⟨occurrenceAlias, ruleId, role, status, reprText, ports, atoms⟩) := rfl

theorem ruleFromDict_ok_iff {rule rule' : EvidenceRule K V} :
    ruleFromDict host (ruleToDict host rule) = .ok rule' ↔
      rule.Readable ∧ rule' = rule.normal host := by
  simp only [ruleFromDict_toDict, requireTreeStatus, requireRole, bind_ok_iff, requireStr_ok_iff,
    requireLiteral_ok_iff, optionalStr_ok_iff, requireMapping_ok_iff,
    mapOk_map_ok_iff (fun _ _ => atomFromDict_ok_iff host), Except.ok.injEq]
  constructor
  · rintro ⟨_, ⟨halias, rfl⟩, _, ⟨hrule, rfl⟩, _, ⟨hrole, rfl⟩, _, ⟨hstatus, rfl⟩, _, ⟨hrepr, rfl⟩,
      _, rfl, _, ⟨hatoms, rfl⟩, rfl⟩
    exact ⟨⟨halias, hrule, hrole, hstatus, hrepr, hatoms⟩, rfl⟩
  · rintro ⟨h, rfl⟩
    exact ⟨_, ⟨h.occurrenceAlias, rfl⟩, _, ⟨h.ruleId, rfl⟩, _, ⟨h.role, rfl⟩, _, ⟨h.status, rfl⟩, _,
      ⟨h.reprText, rfl⟩, _, rfl, _, ⟨h.atoms, rfl⟩, rfl⟩

/-! ## Paths -/

structure EvidenceTree.Readable (t : EvidenceTree K V) : Prop where
  treeId : t.treeId ≠ ""
  status : t.status ∈ treeStatuses
  rules : ∀ rule ∈ t.rules, rule.Readable
  joins : ∀ join ∈ t.joins, join.Readable
  policyConditions : ∀ condition ∈ t.policyConditions, condition.atom.Readable

theorem coordinates_normal (conditions : List (EvidencePolicyCondition K V)) :
    (conditions.map (EvidencePolicyCondition.normal host)).map (·.coordinates) =
      conditions.map (·.coordinates) := by
  rw [List.map_map]
  rfl

def EvidenceTree.normal (t : EvidenceTree K V) : EvidenceTree K V :=
  { t with
    rules := t.rules.map (EvidenceRule.normal host)
    metadata := normalMapping host t.metadata
    policyConditions := t.policyConditions.map (EvidencePolicyCondition.normal host)
    coordinates_nodup := by
      rw [coordinates_normal]
      exact t.coordinates_nodup }

def EvidenceTimeline.atoms (t : EvidenceTimeline K V) : List (EvidenceAtom K V) :=
  t.events.filterMap Event.atom?

structure EvidenceTimeline.Readable (t : EvidenceTimeline K V) : Prop where
  timelineId : t.timelineId ≠ ""
  status : t.status ∈ treeStatuses
  atoms : ∀ atom ∈ t.atoms, atom.Readable

def EvidenceTimeline.normal (t : EvidenceTimeline K V) : EvidenceTimeline K V :=
  { t with
    events := t.atoms.map fun atom => .atom (atom.normal host)
    metadata := normalMapping host t.metadata }

def EvidencePath.Readable : EvidencePath K V → Prop
  | .tree t => t.Readable
  | .timeline t => t.Readable

def EvidencePath.normal : EvidencePath K V → EvidencePath K V
  | .tree t => .tree (t.normal host)
  | .timeline t => .timeline (t.normal host)

theorem treeMake_ok_iff {t : EvidenceTree K V} {path : EvidencePath K V} :
    (EvidenceTree.make t.treeId t.status (t.rules.map (EvidenceRule.normal host)) t.joins
        (t.policyConditions.map (EvidencePolicyCondition.normal host)) t.certainty
        (normalMapping host t.metadata)).map EvidencePath.tree = .ok path ↔
      path = .tree (t.normal host) := by
  have hnodup : ((t.policyConditions.map (EvidencePolicyCondition.normal host)).map
      (·.coordinates)).Nodup := (t.normal host).coordinates_nodup
  unfold EvidenceTree.make
  rw [dif_pos hnodup]
  simp only [Except.map, Except.ok.injEq]
  exact eq_comm

theorem pathFromDict_tree (t : EvidenceTree K V) :
    pathFromDict host (pathToDict host (.tree t)) = (do
      let treeId ← requireStr "tree.tree_id" (str t.treeId : Row V)
      let status ← requireTreeStatus "tree.status" (str t.status : Row V)
      let rules ← mapOk (ruleFromDict host) (t.rules.map (ruleToDict host))
      let joins ← mapOk joinFromDict (t.joins.map (joinToDict (V := V)))
      let policyConditions ← mapOk (policyConditionFromDict host)
        (t.policyConditions.map (policyConditionToDict host))
      let certainty ← certaintyFromDict (certaintyToDict t.certainty : Row V)
      let metadata ← requireMapping "tree.metadata" (some (mappingToJsonable host t.metadata))
      (EvidenceTree.make treeId status rules joins policyConditions certainty metadata).map .tree) := by
  obtain ⟨treeId, status, rules, joins, certainty, metadata, conditions, hnodup⟩ := t
  -- Without conditions the field is not written, and read as an empty list.
  cases conditions <;> rfl

theorem pathFromDict_timeline (t : EvidenceTimeline K V) :
    pathFromDict host (pathToDict host (.timeline t)) = (do
      let timelineId ← requireStr "timeline.timeline_id" (str t.timelineId : Row V)
      let status ← requireTreeStatus "timeline.status" (str t.status : Row V)
      let events ← mapOk (atomFromDict host) (t.atoms.map (atomToDict host))
      let certainty ← certaintyFromDict (certaintyToDict t.certainty : Row V)
      let metadata ← requireMapping "timeline.metadata" (some (mappingToJsonable host t.metadata))
      .ok (.timeline ⟨timelineId, status, events.map .atom, certainty, metadata⟩)) := rfl

theorem pathFromDict_ok_iff {path path' : EvidencePath K V} :
    pathFromDict host (pathToDict host path) = .ok path' ↔
      path.Readable ∧ path' = path.normal host := by
  cases path with
  | tree t =>
    simp only [pathFromDict_tree, requireTreeStatus, bind_ok_iff, requireStr_ok_iff,
      requireLiteral_ok_iff, certaintyFromDict_ok_iff, requireMapping_ok_iff,
      mapOk_map_ok_iff (fun _ _ => ruleFromDict_ok_iff host),
      mapOk_map_ok_iff (fun _ _ => joinFromDict_ok_iff (V := V)),
      mapOk_map_ok_iff (fun _ _ => policyConditionFromDict_ok_iff host), List.map_id']
    constructor
    · rintro ⟨_, ⟨hid, rfl⟩, _, ⟨hstatus, rfl⟩, _, ⟨hrules, rfl⟩, _, ⟨hjoins, rfl⟩, _,
        ⟨hconditions, rfl⟩, _, rfl, _, rfl, h⟩
      exact ⟨⟨hid, hstatus, hrules, hjoins, hconditions⟩, (treeMake_ok_iff host).mp h⟩
    · rintro ⟨h, rfl⟩
      exact ⟨_, ⟨h.treeId, rfl⟩, _, ⟨h.status, rfl⟩, _, ⟨h.rules, rfl⟩, _, ⟨h.joins, rfl⟩, _,
        ⟨h.policyConditions, rfl⟩, _, rfl, _, rfl, (treeMake_ok_iff host).mpr rfl⟩
  | timeline t =>
    simp only [pathFromDict_timeline, requireTreeStatus, bind_ok_iff, requireStr_ok_iff,
      requireLiteral_ok_iff, certaintyFromDict_ok_iff, requireMapping_ok_iff,
      mapOk_map_ok_iff (fun _ _ => atomFromDict_ok_iff host), Except.ok.injEq]
    constructor
    · rintro ⟨_, ⟨hid, rfl⟩, _, ⟨hstatus, rfl⟩, _, ⟨hatoms, rfl⟩, _, rfl, _, rfl, rfl⟩
      refine ⟨⟨hid, hstatus, hatoms⟩, ?_⟩
      rw [List.map_map]
      rfl
    · rintro ⟨h, rfl⟩
      refine ⟨_, ⟨h.timelineId, rfl⟩, _, ⟨h.status, rfl⟩, _, ⟨h.atoms, rfl⟩, _, rfl, _, rfl, ?_⟩
      rw [List.map_map]
      rfl

/-! ## Graphs -/

/-- The texts of the graph have a character, and its literals are what they are declared to be. -/
structure EvidenceGraph.Readable (graph : EvidenceGraph K V) : Prop where
  graphId : graph.graphId ≠ ""
  engine : graph.engine ≠ ""
  layoutHint : graph.layoutHint ∈ layoutHints
  paths : ∀ path ∈ graph.paths, path.Readable

/-- The graph with its lists as tuples, its keys as strings, a certainty for every verdict and no event
that is no atom. -/
def EvidenceGraph.normal (graph : EvidenceGraph K V) : EvidenceGraph K V :=
  { graph with
    subjectBinding := normalMapping host graph.subjectBinding
    paths := graph.paths.map (EvidencePath.normal host)
    metadata := normalMapping host graph.metadata }

theorem evidenceGraphFromDict_toDict (graph : EvidenceGraph K V) :
    evidenceGraphFromDict host (evidenceGraphToDict host graph) = (do
      let graphId ← requireStr "row.graph_id" (str graph.graphId : Row V)
      let engine ← requireStr "row.engine" (str graph.engine : Row V)
      let layoutHint ← requireLayoutHint (str graph.layoutHint : Row V)
      let subjectBinding ← requireMapping "row.subject_binding"
        (some (mappingToJsonable host graph.subjectBinding))
      let paths ← mapOk (pathFromDict host) (graph.paths.map (pathToDict host))
      let certainty ← certaintyFromDict (certaintyToDict graph.certainty : Row V)
      let metadata ← requireMapping "row.metadata" (some (mappingToJsonable host graph.metadata))
      .ok ⟨graphId, engine, layoutHint, subjectBinding, paths, certainty, metadata⟩) := rfl

theorem evidenceGraphFromDict_ok_iff {graph graph' : EvidenceGraph K V} :
    evidenceGraphFromDict host (evidenceGraphToDict host graph) = .ok graph' ↔
      graph.Readable ∧ graph' = graph.normal host := by
  simp only [evidenceGraphFromDict_toDict, requireLayoutHint, bind_ok_iff, requireStr_ok_iff,
    requireLiteral_ok_iff, certaintyFromDict_ok_iff, requireMapping_ok_iff,
    mapOk_map_ok_iff (fun _ _ => pathFromDict_ok_iff host), Except.ok.injEq]
  constructor
  · rintro ⟨_, ⟨hid, rfl⟩, _, ⟨hengine, rfl⟩, _, ⟨hlayout, rfl⟩, _, rfl, _, ⟨hpaths, rfl⟩, _, rfl, _,
      rfl, rfl⟩
    exact ⟨⟨hid, hengine, hlayout, hpaths⟩, rfl⟩
  · rintro ⟨h, rfl⟩
    exact ⟨_, ⟨h.graphId, rfl⟩, _, ⟨h.engine, rfl⟩, _, ⟨h.layoutHint, rfl⟩, _, rfl, _,
      ⟨h.paths, rfl⟩, _, rfl, _, rfl, rfl⟩

/-! ## Graphs that come back as they were -/

theorem map_eq_self_iff {α : Type} {f : α → α} {as : List α} :
    as.map f = as ↔ ∀ a ∈ as, f a = a := by
  induction as with
  | nil => simp
  | cons a as ih => rw [List.map_cons, List.cons.injEq, ih, List.forall_mem_cons]

def Source.Plain (source : Source K V) : Prop :=
  source.value.Plain ∧ (PyValue.mapping source.metadata).Plain

theorem Source.normal_eq_iff {source : Source K V} : source.normal host = source ↔ source.Plain := by
  obtain ⟨ref, fieldName, value, metadata⟩ := source
  simp only [Source.normal, Source.mk.injEq, true_and, Explain.normal_eq_iff, normalMapping_eq_iff]
  rfl

def Verdict.Plain : Verdict K V → Prop
  | .holds certainty support | .fails certainty support =>
      certainty.isSome = true ∧ ∀ source ∈ support, source.Plain
  | .notReached _ => True

theorem normalCertainty_eq_iff {certainty : Option Certainty} :
    normalCertainty certainty = certainty ↔ certainty.isSome = true := by
  cases certainty <;> simp [normalCertainty]

theorem Verdict.normal_eq_iff {verdict : Verdict K V} :
    verdict.normal host = verdict ↔ verdict.Plain := by
  cases verdict with
  | holds certainty support =>
    simp only [Verdict.normal, Verdict.holds.injEq, normalCertainty_eq_iff, map_eq_self_iff,
      Source.normal_eq_iff]
    rfl
  | fails certainty support =>
    simp only [Verdict.normal, Verdict.fails.injEq, normalCertainty_eq_iff, map_eq_self_iff,
      Source.normal_eq_iff]
    rfl
  | notReached blockedBy => simp [Verdict.normal, Verdict.Plain]

def EvidenceTerm.Plain : EvidenceTerm K V → Prop
  | .boundVar _ value _ | .const value => value.Plain

theorem EvidenceTerm.normal_eq_iff {term : EvidenceTerm K V} :
    term.normal host = term ↔ term.Plain := by
  cases term with
  | boundVar name value boundBy =>
    simp only [EvidenceTerm.normal, EvidenceTerm.boundVar.injEq, true_and, and_true,
      Explain.normal_eq_iff]
    rfl
  | const value =>
    simp only [EvidenceTerm.normal, EvidenceTerm.const.injEq, Explain.normal_eq_iff]
    rfl

def AtomForm.Plain : AtomForm K V → Prop
  | .fact _ terms | .builtin _ terms => ∀ term ∈ terms, term.Plain
  | .compare _ left right => left.Plain ∧ right.Plain
  | .aggregate _ bodyTerms headTerms =>
      (∀ term ∈ bodyTerms, term.Plain) ∧ ∀ term ∈ headTerms, term.Plain

theorem AtomForm.normal_eq_iff {form : AtomForm K V} : form.normal host = form ↔ form.Plain := by
  cases form with
  | fact predicate terms =>
    simp only [AtomForm.normal, AtomForm.fact.injEq, true_and, map_eq_self_iff,
      EvidenceTerm.normal_eq_iff]
    rfl
  | compare op left right =>
    simp only [AtomForm.normal, AtomForm.compare.injEq, true_and, EvidenceTerm.normal_eq_iff]
    rfl
  | builtin kind operands =>
    simp only [AtomForm.normal, AtomForm.builtin.injEq, true_and, map_eq_self_iff,
      EvidenceTerm.normal_eq_iff]
    rfl
  | aggregate kind bodyTerms headTerms =>
    simp only [AtomForm.normal, AtomForm.aggregate.injEq, true_and, map_eq_self_iff,
      EvidenceTerm.normal_eq_iff]
    rfl

def EvidenceAtom.Plain (atom : EvidenceAtom K V) : Prop := atom.form.Plain ∧ atom.verdict.Plain

theorem EvidenceAtom.normal_eq_iff {atom : EvidenceAtom K V} :
    atom.normal host = atom ↔ atom.Plain := by
  obtain ⟨form, verdict, atomId, reprText, negated, timestep⟩ := atom
  simp only [EvidenceAtom.normal, EvidenceAtom.mk.injEq, and_true, AtomForm.normal_eq_iff,
    Verdict.normal_eq_iff]
  rfl

theorem EvidencePolicyCondition.normal_eq_iff {condition : EvidencePolicyCondition K V} :
    condition.normal host = condition ↔ condition.atom.Plain := by
  obtain ⟨policyNodeId, conditionId, role, atom, hnode, hcondition, hrole⟩ := condition
  simp only [EvidencePolicyCondition.normal, EvidencePolicyCondition.mk.injEq, true_and,
    EvidenceAtom.normal_eq_iff]

def EvidenceRule.Plain (rule : EvidenceRule K V) : Prop :=
  (PyValue.mapping rule.ports).Plain ∧ ∀ atom ∈ rule.atoms, atom.Plain

theorem EvidenceRule.normal_eq_iff {rule : EvidenceRule K V} :
    rule.normal host = rule ↔ rule.Plain := by
  obtain ⟨occurrenceAlias, ruleId, role, status, reprText, ports, atoms⟩ := rule
  simp only [EvidenceRule.normal, EvidenceRule.mk.injEq, true_and, normalMapping_eq_iff,
    map_eq_self_iff, EvidenceAtom.normal_eq_iff]
  rfl

def EvidenceTree.Plain (t : EvidenceTree K V) : Prop :=
  (∀ rule ∈ t.rules, rule.Plain) ∧ (PyValue.mapping t.metadata).Plain ∧
    ∀ condition ∈ t.policyConditions, condition.atom.Plain

theorem EvidenceTree.normal_eq_iff {t : EvidenceTree K V} : t.normal host = t ↔ t.Plain := by
  obtain ⟨treeId, status, rules, joins, certainty, metadata, conditions, hnodup⟩ := t
  simp only [EvidenceTree.normal, EvidenceTree.mk.injEq, true_and, normalMapping_eq_iff,
    map_eq_self_iff, EvidenceRule.normal_eq_iff, EvidencePolicyCondition.normal_eq_iff]
  rfl

/-- An event that is read back as it was. -/
def Event.Plain : Event K V → Prop
  | .atom a => a.Plain
  | .other _ => False

def EvidenceTimeline.Plain (t : EvidenceTimeline K V) : Prop :=
  (∀ event ∈ t.events, event.Plain) ∧ (PyValue.mapping t.metadata).Plain

theorem events_normal_eq_iff {events : List (Event K V)} :
    ((events.filterMap Event.atom?).map fun atom => Event.atom (atom.normal host)) = events ↔
      ∀ event ∈ events, event.Plain := by
  induction events with
  | nil => simp
  | cons event events ih =>
    cases event with
    | atom a =>
      rw [List.filterMap_cons_some (by rfl), List.map_cons, List.cons.injEq, ih, Event.atom.injEq,
        EvidenceAtom.normal_eq_iff, List.forall_mem_cons]
      rfl
    | other v =>
      constructor
      · -- One event is missing.
        intro h
        have hlength := congrArg List.length h
        have hle := List.length_filterMap_le Event.atom? events
        rw [List.filterMap_cons_none (by rfl), List.length_map, List.length_cons] at hlength
        omega
      · intro h
        exact absurd (h _ List.mem_cons_self) (by simp [Event.Plain])

theorem EvidenceTimeline.normal_eq_iff {t : EvidenceTimeline K V} : t.normal host = t ↔ t.Plain := by
  obtain ⟨timelineId, status, events, certainty, metadata⟩ := t
  simp only [EvidenceTimeline.normal, EvidenceTimeline.atoms, EvidenceTimeline.mk.injEq, true_and,
    events_normal_eq_iff, normalMapping_eq_iff]
  rfl

def EvidencePath.Plain : EvidencePath K V → Prop
  | .tree t => t.Plain
  | .timeline t => t.Plain

theorem EvidencePath.normal_eq_iff {path : EvidencePath K V} :
    path.normal host = path ↔ path.Plain := by
  cases path with
  | tree t =>
    rw [EvidencePath.normal, EvidencePath.tree.injEq, EvidenceTree.normal_eq_iff]
    rfl
  | timeline t =>
    rw [EvidencePath.normal, EvidencePath.timeline.injEq, EvidenceTimeline.normal_eq_iff]
    rfl

/-- No list, no key that is no string, no verdict without a certainty, no event that is no atom. -/
def EvidenceGraph.Plain (graph : EvidenceGraph K V) : Prop :=
  (PyValue.mapping graph.subjectBinding).Plain ∧ (∀ path ∈ graph.paths, path.Plain) ∧
    (PyValue.mapping graph.metadata).Plain

theorem EvidenceGraph.normal_eq_iff {graph : EvidenceGraph K V} :
    graph.normal host = graph ↔ graph.Plain := by
  obtain ⟨graphId, engine, layoutHint, subjectBinding, paths, certainty, metadata⟩ := graph
  simp only [EvidenceGraph.normal, EvidenceGraph.mk.injEq, true_and, normalMapping_eq_iff,
    map_eq_self_iff, EvidencePath.normal_eq_iff]
  rfl

/-- A written graph is read back if and only if it is readable, and then as its normal form, which is
the graph itself if and only if it is plain. -/
theorem evidence_graph_round_trip (graph : EvidenceGraph K V) :
    (∀ graph', evidenceGraphFromDict host (evidenceGraphToDict host graph) = .ok graph' ↔
      graph.Readable ∧ graph' = graph.normal host) ∧
    (graph.normal host = graph ↔ graph.Plain) :=
  ⟨fun _ => evidenceGraphFromDict_ok_iff host, EvidenceGraph.normal_eq_iff host⟩

/-- Objects whose keys are strings. -/
def stringKeys : Host Empty Empty := ⟨Empty.elim, Empty.elim⟩

/-- A graph whose metadata has a list. -/
def listedGraph : EvidenceGraph Empty Empty where
  graphId := "eg:row-1"
  engine := "native"
  layoutHint := "tree"
  subjectBinding := [(.str "person", .leaf (.str "alice"))]
  paths := []
  certainty := some booleanCertainty
  metadata := [(.str "tags", .list [.leaf (.str "a")])]

theorem evidence_graph_loses_list :
    ∃ graph, evidenceGraphFromDict stringKeys (evidenceGraphToDict stringKeys listedGraph) = .ok graph ∧
      graph ≠ listedGraph := by
  have hreadable : listedGraph.Readable := ⟨by decide, by decide, by decide, nofun⟩
  refine ⟨_, (evidenceGraphFromDict_ok_iff stringKeys).mpr ⟨hreadable, rfl⟩, ?_⟩
  rw [Ne, EvidenceGraph.normal_eq_iff]
  rintro ⟨-, -, -, hlist, -⟩
  exact hlist

end FactGraph.Explain
