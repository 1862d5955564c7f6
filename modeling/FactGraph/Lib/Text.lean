import Mathlib.Data.List.Basic

/-!
# Texts as lists of characters

What programs do to a text character by character: replacing one character, reading a file of lines.
-/

namespace Text

/-- `text.replace(c, t)`, for one character. -/
def replaceChar (c : Char) (t : List Char) (cs : List Char) : List Char :=
  cs.flatMap fun d => if d = c then t else [d]

@[simp] theorem replaceChar_cons (c d : Char) (t cs : List Char) :
    replaceChar c t (d :: cs) = (if d = c then t else [d]) ++ replaceChar c t cs := rfl

@[simp] theorem replaceChar_append (c : Char) (t cs ds : List Char) :
    replaceChar c t (cs ++ ds) = replaceChar c t cs ++ replaceChar c t ds := by
  unfold replaceChar
  exact List.flatMap_append

/-- A text without the character stays. -/
theorem replaceChar_of_not_mem {c : Char} {t cs : List Char} (h : c ∉ cs) :
    replaceChar c t cs = cs := by
  induction cs with
  | nil => rfl
  | cons d cs ih =>
    rw [List.mem_cons, not_or] at h
    rw [replaceChar_cons, if_neg (Ne.symm h.1), ih h.2]
    rfl

/-- A file opened as text reads every end of a line as `\n`. -/
def universalNewlines : List Char → List Char
  | [] => []
  | '\r' :: '\n' :: cs => '\n' :: universalNewlines cs
  | '\r' :: cs => '\n' :: universalNewlines cs
  | c :: cs => c :: universalNewlines cs

theorem universalNewlines_of_not_mem {cs : List Char} (h : '\r' ∉ cs) :
    universalNewlines cs = cs := by
  induction cs with
  | nil => rfl
  | cons c cs ih =>
    rw [List.mem_cons, not_or] at h
    rw [universalNewlines.eq_4 c cs (fun _ hc => absurd hc.symm h.1) (fun hc => h.1 hc.symm), ih h.2]

theorem not_mem_universalNewlines (cs : List Char) : '\r' ∉ universalNewlines cs := by
  induction cs using universalNewlines.induct with
  | case1 => simp [universalNewlines]
  | case2 cs ih => simp [universalNewlines, ih]
  | case3 cs h ih =>
    rw [universalNewlines.eq_3 cs h]
    simp [ih]
  | case4 c cs h h' ih =>
    rw [universalNewlines.eq_4 c cs h h']
    intro hmem
    rcases List.mem_cons.mp hmem with hc | hmem
    · exact h' hc.symm
    · exact ih hmem

/-! ## The first of a character -/

/-- `text.split(c, 1)`, if the character is there. -/
def cut (c : Char) : List Char → Option (List Char × List Char)
  | [] => none
  | d :: cs => if d = c then some ([], cs) else (cut c cs).map fun p => (d :: p.1, p.2)

theorem cut_eq_some_iff {c : Char} {cs as bs : List Char} :
    cut c cs = some (as, bs) ↔ c ∉ as ∧ cs = as ++ c :: bs := by
  induction cs generalizing as with
  | nil => simp [cut]
  | cons d cs ih =>
    rw [cut]
    by_cases heq : d = c
    · subst heq
      rw [if_pos rfl]
      constructor
      · intro h
        cases h
        exact ⟨List.not_mem_nil, rfl⟩
      · rintro ⟨hmem, hcs⟩
        cases as with
        | nil => simp_all
        | cons e as =>
          -- the head of the text is the character itself
          rw [List.cons_append, List.cons.injEq] at hcs
          exact absurd (hcs.1 ▸ List.mem_cons_self) hmem
    · rw [if_neg heq, Option.map_eq_some_iff]
      constructor
      · rintro ⟨⟨as', bs'⟩, hcut, hpair⟩
        cases hpair
        obtain ⟨hmem, rfl⟩ := ih.mp hcut
        exact ⟨by simp [Ne.symm heq, hmem], rfl⟩
      · rintro ⟨hmem, hcs⟩
        cases as with
        | nil => exact absurd (List.cons.inj hcs).1 heq
        | cons e as =>
          rw [List.cons_append, List.cons.injEq] at hcs
          obtain ⟨rfl, hcs⟩ := hcs
          exact ⟨(as, bs), ih.mpr ⟨fun h => hmem (List.mem_cons_of_mem _ h), hcs⟩, rfl⟩

theorem cut_eq_none_iff {c : Char} {cs : List Char} : cut c cs = none ↔ c ∉ cs := by
  induction cs with
  | nil => simp [cut]
  | cons d cs ih =>
    rw [cut]
    by_cases heq : d = c
    · simp [heq]
    · simp [heq, ih, Ne.symm heq]

/-! ## Splitting at every occurrence -/

theorem length_splitOn {c : Char} (cs : List Char) : (cs.splitOn c).length = cs.count c + 1 := by
  induction cs with
  | nil => rfl
  | cons d cs ih =>
    rw [List.splitOn_cons_eq_if_modifyHead, List.count_cons]
    by_cases heq : d = c
    · simp [heq, ih]
    · simp [heq, ih]

/-- The parts of a joined text are the parts of what was joined. -/
theorem splitOn_intercalate_flatMap {c : Char} {ls : List (List Char)} (hls : ls ≠ []) :
    ([c].intercalate ls).splitOn c = ls.flatMap (·.splitOn c) := by
  induction ls with
  | nil => exact absurd rfl hls
  | cons l ls ih =>
    cases ls with
    | nil => simp
    | cons l' ls =>
      rw [List.intercalate_cons_cons, List.append_assoc, List.singleton_append,
        List.splitOn_append_cons_self, ih (List.cons_ne_nil _ _)]
      rfl

end Text
