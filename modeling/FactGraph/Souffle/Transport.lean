import FactGraph.Lib.Check
import FactGraph.Lib.Text
import Mathlib.Data.List.Sort
import Mathlib.Data.String.Basic

/-!
# Values on their way to Soufflé and back

`adapters/souffle/tsv_v1.py`, the string literals of `adapters/souffle/where_compile.py` and
`_read_query_bindings` of `adapters/souffle/engine_eval.py`: a value goes out as a cell of a fact file
or as a literal of a rule, and comes back as a cell of an output file.

Soufflé reads fact files and prints symbols verbatim and undoes the escapes of a literal. So the
symbol of a fact is the escaped value and the symbol of a literal the value itself, which are one
symbol only where there was nothing to escape; and since a file is read line by line, a value with a
carriage return does not come back, nor does a row that is an empty line.
-/

namespace FactGraph.Souffle.Transport

open Check Text

inductive Err where
  | value (msg : String)
  | whereValidation (msg : String)
  deriving DecidableEq, Repr

/-! ## Cells -/

/-- `tsv_cell_v1_encode`, on characters. -/
def encodeChars (x : List Char) : List Char :=
  replaceChar '\n' ['\\', 'n'] (replaceChar '\t' ['\\', 't'] (replaceChar '\\' ['\\', '\\'] x))

/-- `tsv_cell_v1_encode`. -/
def tsvCellV1Encode (x : String) : String := String.ofList (encodeChars x.toList)

/-- The loop of `tsv_cell_v1_decode`. -/
def decodeChars : List Char → Except Err (List Char)
  | [] => .ok []
  | ['\\'] => .error (.value "invalid tsv escape: trailing backslash")
  | '\\' :: next :: s =>
      if next = 't' then (decodeChars s).map ('\t' :: ·)
      else if next = 'n' then (decodeChars s).map ('\n' :: ·)
      else if next = '\\' then (decodeChars s).map ('\\' :: ·)
      else .error (.value s!"invalid tsv escape sequence: \\{next}")
  | ch :: s => (decodeChars s).map (ch :: ·)

/-- `tsv_cell_v1_decode`. -/
def tsvCellV1Decode (s : String) : Except Err String := (decodeChars s.toList).map String.ofList

/-- What `tsv_cell_v1_encode` writes for a character. -/
def encodeChar (c : Char) : List Char :=
  if c = '\\' then ['\\', '\\'] else if c = '\t' then ['\\', 't'] else if c = '\n' then ['\\', 'n']
  else [c]

theorem encodeChars_nil : encodeChars [] = [] := rfl

theorem encodeChars_cons (c : Char) (x : List Char) :
    encodeChars (c :: x) = encodeChar c ++ encodeChars x := by
  unfold encodeChars encodeChar
  rw [replaceChar_cons, replaceChar_append, replaceChar_append]
  by_cases hslash : c = '\\'
  · subst hslash
    rfl
  · rw [if_neg hslash, if_neg hslash]
    by_cases htab : c = '\t'
    · subst htab
      rfl
    · rw [if_neg htab, replaceChar_of_not_mem (t := ['\\', 't']) (by simp [Ne.symm htab])]
      by_cases hline : c = '\n'
      · subst hline
        rfl
      · rw [if_neg hline, replaceChar_of_not_mem (by simp [Ne.symm hline])]

theorem mem_encodeChars {c : Char} {x : List Char} (h : c ∈ encodeChars x) :
    c ∈ x ∧ c ≠ '\t' ∧ c ≠ '\n' ∨ c ∈ ['\\', 't', 'n'] := by
  induction x with
  | nil => cases h
  | cons d x ih =>
    rw [encodeChars_cons, List.mem_append] at h
    rcases h with h | h
    · unfold encodeChar at h
      split_ifs at h with hslash htab hline
      · right
        rcases List.mem_pair.mp h with rfl | rfl
        all_goals simp
      · right
        rcases List.mem_pair.mp h with rfl | rfl
        all_goals simp
      · right
        rcases List.mem_pair.mp h with rfl | rfl
        all_goals simp
      · have hcd : c = d := List.mem_singleton.mp h
        subst hcd
        exact .inl ⟨List.mem_cons_self, htab, hline⟩
    · rcases ih h with ⟨hc, hne⟩ | hc
      · exact .inl ⟨List.mem_cons_of_mem d hc, hne⟩
      · exact .inr hc

theorem tab_not_mem_encodeChars (x : List Char) : '\t' ∉ encodeChars x := by
  intro h
  rcases mem_encodeChars h with ⟨-, hne, -⟩ | h
  · exact hne rfl
  · simp at h

theorem line_not_mem_encodeChars (x : List Char) : '\n' ∉ encodeChars x := by
  intro h
  rcases mem_encodeChars h with ⟨-, -, hne⟩ | h
  · exact hne rfl
  · simp at h

theorem return_not_mem_encodeChars {x : List Char} (hx : '\r' ∉ x) : '\r' ∉ encodeChars x := by
  intro h
  rcases mem_encodeChars h with ⟨h, -⟩ | h
  · exact hx h
  · simp at h

/-! ### Reading a cell -/

theorem decodeChars_cons {c : Char} (s : List Char) (h : c ≠ '\\') :
    decodeChars (c :: s) = (decodeChars s).map (c :: ·) := by
  rw [decodeChars.eq_4 c s]
  · intro hc
    exact absurd hc h
  · intro next s' hc
    exact absurd hc h

/-- An escaped character is read back. -/
theorem decodeChars_encodeChar (c : Char) (s : List Char) :
    decodeChars (encodeChar c ++ s) = (decodeChars s).map (c :: ·) := by
  unfold encodeChar
  split_ifs with hslash htab hline
  · subst hslash
    simp [decodeChars]
  · subst htab
    simp [decodeChars]
  · subst hline
    simp [decodeChars]
  · exact decodeChars_cons s hslash

theorem decodeChars_encodeChars (x : List Char) : decodeChars (encodeChars x) = .ok x := by
  induction x with
  | nil => rfl
  | cons c x ih =>
    rw [encodeChars_cons, decodeChars_encodeChar, ih]
    rfl

theorem tsvCellV1Decode_encode (x : String) : tsvCellV1Decode (tsvCellV1Encode x) = .ok x := by
  unfold tsvCellV1Decode tsvCellV1Encode
  rw [String.toList_ofList, decodeChars_encodeChars]
  exact congrArg Except.ok String.ofList_toList

theorem map_ok {ε α β : Type} {f : α → β} {x : Except ε α} {b : β} (h : x.map f = .ok b) :
    ∃ a, x = .ok a ∧ b = f a := by
  cases x with
  | error e => cases h
  | ok a =>
    cases h
    exact ⟨a, rfl, rfl⟩

/-- A cell that is read has no characters but those that were written and those of the escapes. -/
theorem mem_of_decodeChars {c : Char} {s x : List Char} (h : decodeChars s = .ok x) (hc : c ∈ x) :
    c ∈ s ∨ c ∈ ['\\', '\t', '\n'] := by
  induction s using decodeChars.induct generalizing x with
  | case1 =>
    cases h
    cases hc
  | case2 => cases h
  | case3 s ih =>
    obtain ⟨rest, hrest, rfl⟩ := map_ok (by simpa [decodeChars] using h)
    rcases List.mem_cons.mp hc with rfl | hc
    · simp
    · rcases ih hrest hc with hc | hc
      · exact .inl (List.mem_cons_of_mem _ (List.mem_cons_of_mem _ hc))
      · exact .inr hc
  | case4 s _ ih =>
    obtain ⟨rest, hrest, rfl⟩ := map_ok (by simpa [decodeChars] using h)
    rcases List.mem_cons.mp hc with rfl | hc
    · simp
    · rcases ih hrest hc with hc | hc
      · exact .inl (List.mem_cons_of_mem _ (List.mem_cons_of_mem _ hc))
      · exact .inr hc
  | case5 s _ _ ih =>
    obtain ⟨rest, hrest, rfl⟩ := map_ok (by simpa [decodeChars] using h)
    rcases List.mem_cons.mp hc with rfl | hc
    · simp
    · rcases ih hrest hc with hc | hc
      · exact .inl (List.mem_cons_of_mem _ (List.mem_cons_of_mem _ hc))
      · exact .inr hc
  | case6 next s htab hline hslash =>
    simp [decodeChars, htab, hline, hslash] at h
  | case7 ch s hend hnext ih =>
    rw [decodeChars.eq_4 ch s hend hnext] at h
    obtain ⟨rest, hrest, rfl⟩ := map_ok h
    rcases List.mem_cons.mp hc with rfl | hc
    · exact .inl List.mem_cons_self
    · rcases ih hrest hc with hc | hc
      · exact .inl (List.mem_cons_of_mem _ hc)
      · exact .inr hc

theorem eq_nil_of_decodeChars {s : List Char} (h : decodeChars s = .ok []) : s = [] := by
  rcases s with _ | ⟨c, s⟩
  · rfl
  · by_cases hc : c = '\\'
    · subst hc
      rcases s with _ | ⟨next, s⟩
      · cases h
      · rw [decodeChars] at h
        split_ifs at h
        all_goals
          obtain ⟨rest, -, heq⟩ := map_ok h
          cases heq
    · rw [decodeChars_cons s hc] at h
      obtain ⟨rest, -, heq⟩ := map_ok h
      cases heq

/-! ## Literals -/

/-- `_text_to_symbol`, between the quotes. -/
def literalChars (text : List Char) : List Char :=
  replaceChar '\n' ['\\', 'n'] (replaceChar '"' ['\\', '"'] (replaceChar '\\' ['\\', '\\'] text))

/-- `_text_to_symbol`. -/
def textToSymbol (text : String) : String :=
  String.ofList ('"' :: (literalChars text.toList ++ ['"']))

/-- What Soufflé reads of an escape in a string literal. -/
def unescape : Char → Option Char
  | '\\' => some '\\'
  | '"' => some '"'
  | 'n' => some '\n'
  | 't' => some '\t'
  | 'r' => some '\r'
  | _ => none

/-- What Soufflé reads of a string literal, after the opening quote. -/
def readLiteral : List Char → Option (List Char)
  | [] => none
  | ['"'] => some []
  | '"' :: _ :: _ => none
  | '\\' :: c :: cs => do
      let c ← unescape c
      let rest ← readLiteral cs
      some (c :: rest)
  | c :: cs => (readLiteral cs).map (c :: ·)

/-- The symbol a string literal denotes. -/
def symbolOfLiteral? (literal : String) : Option String :=
  match literal.toList with
  | '"' :: cs => (readLiteral cs).map String.ofList
  | _ => none

/-- What `_text_to_symbol` writes for a character. -/
def literalChar (c : Char) : List Char :=
  if c = '\\' then ['\\', '\\'] else if c = '"' then ['\\', '"'] else if c = '\n' then ['\\', 'n']
  else [c]

theorem literalChars_cons (c : Char) (text : List Char) :
    literalChars (c :: text) = literalChar c ++ literalChars text := by
  unfold literalChars literalChar
  rw [replaceChar_cons, replaceChar_append, replaceChar_append]
  by_cases hslash : c = '\\'
  · subst hslash
    rfl
  · rw [if_neg hslash, if_neg hslash]
    by_cases hquote : c = '"'
    · subst hquote
      rfl
    · rw [if_neg hquote, replaceChar_of_not_mem (t := ['\\', '"']) (by simp [Ne.symm hquote])]
      by_cases hline : c = '\n'
      · subst hline
        rfl
      · rw [if_neg hline, replaceChar_of_not_mem (by simp [Ne.symm hline])]

theorem readLiteral_cons {c : Char} (cs : List Char) (hquote : c ≠ '"') (hslash : c ≠ '\\') :
    readLiteral (c :: cs) = (readLiteral cs).map (c :: ·) := by
  rw [readLiteral.eq_5 c cs]
  · intro hc
    exact absurd hc hquote
  · intro d ds hc
    exact absurd hc hquote
  · intro d ds hc
    exact absurd hc hslash

theorem readLiteral_literalChar (c : Char) (cs : List Char) :
    readLiteral (literalChar c ++ cs) = (readLiteral cs).map (c :: ·) := by
  unfold literalChar
  split_ifs with hslash hquote hline
  · subst hslash
    simp [readLiteral, unescape, Option.map_eq_bind]
  · subst hquote
    simp [readLiteral, unescape, Option.map_eq_bind]
  · subst hline
    simp [readLiteral, unescape, Option.map_eq_bind]
  · exact readLiteral_cons cs hquote hslash

theorem readLiteral_literalChars (text : List Char) :
    readLiteral (literalChars text ++ ['"']) = some text := by
  induction text with
  | nil => rfl
  | cons c text ih =>
    rw [literalChars_cons, List.append_assoc, readLiteral_literalChar, ih]
    rfl

/-- A literal denotes the value itself. -/
theorem symbolOfLiteral?_textToSymbol (text : String) :
    symbolOfLiteral? (textToSymbol text) = some text := by
  unfold symbolOfLiteral? textToSymbol
  rw [String.toList_ofList]
  show (readLiteral (literalChars text.toList ++ ['"'])).map String.ofList = some text
  rw [readLiteral_literalChars]
  exact congrArg some String.ofList_toList

/-! ## One symbol -/

/-- A text in which the cells of a fact file escape nothing. -/
def Plain (v : String) : Prop := ∀ c ∈ v.toList, c ≠ '\\' ∧ c ≠ '\t' ∧ c ≠ '\n'

theorem length_le_encodeChars (x : List Char) : x.length ≤ (encodeChars x).length := by
  induction x with
  | nil => exact Nat.le_refl 0
  | cons c x ih =>
    rw [encodeChars_cons, List.length_append, List.length_cons]
    have hchar : 1 ≤ (encodeChar c).length := by
      unfold encodeChar
      split_ifs
      all_goals simp
    omega

/-- Every escape makes a text longer. -/
theorem encodeChars_eq_self_iff {x : List Char} :
    encodeChars x = x ↔ ∀ c ∈ x, c ≠ '\\' ∧ c ≠ '\t' ∧ c ≠ '\n' := by
  induction x with
  | nil => simp [encodeChars_nil]
  | cons c x ih =>
    rw [encodeChars_cons, List.forall_mem_cons, ← ih]
    by_cases hplain : c ≠ '\\' ∧ c ≠ '\t' ∧ c ≠ '\n'
    · have hchar : encodeChar c = [c] := by
        unfold encodeChar
        rw [if_neg hplain.1, if_neg hplain.2.1, if_neg hplain.2.2]
      simp [hchar, hplain]
    · refine iff_of_false ?_ (fun h => hplain h.1)
      intro heq
      have hchar : (encodeChar c).length = 2 := by
        unfold encodeChar
        split_ifs with hslash htab hline
        · rfl
        · rfl
        · rfl
        · exact absurd ⟨hslash, htab, hline⟩ hplain
      have hlength := congrArg List.length heq
      rw [List.length_append, List.length_cons, hchar] at hlength
      have hle := length_le_encodeChars x
      omega

theorem tsvCellV1Encode_eq_self_iff {v : String} : tsvCellV1Encode v = v ↔ Plain v := by
  unfold Plain tsvCellV1Encode
  rw [← encodeChars_eq_self_iff, ← String.toList_inj, String.toList_ofList]

/-! ## Files -/

/-- The lines of rows of cells: a fact file, and what Soufflé prints of a relation of symbols. -/
def tsvText (rows : List (List String)) : String :=
  String.ofList (rows.flatMap fun row => ['\t'].intercalate (row.map String.toList) ++ ['\n'])

/-- What `write_tsv` leaves in the file. -/
def writeTsv (rows : List (List String)) : String :=
  tsvText (rows.map fun row => row.map tsvCellV1Encode)

/-- What `_normalize_query_variables` returns. -/
structure QueryVariables where
  names : List String
  nonempty : names ≠ []
  nodup : names.Nodup

/-- A line of the file: nothing if it is empty. -/
def readLine (vars : QueryVariables) (line : List Char) :
    Except Err (Option (List (String × String))) :=
  if line.isEmpty then .ok none
  else do
    let cells ← mapOk (fun cell => tsvCellV1Decode (String.ofList cell)) (line.splitOn '\t')
    require (cells.length = vars.names.length) (.whereValidation
      (s!"query output arity mismatch: expected {vars.names.length}, " ++
        s!"got {cells.length}"))
    .ok (some (vars.names.zip cells))

/-- The pairs of a binding by name, as the tuple they are compared by. -/
def sortKey (row : List (String × String)) : List String :=
  (row.insertionSort fun p q => p.1 ≤ q.1).flatMap fun p => [p.1, p.2]

/-- `_read_query_bindings`. What follows the last end of a line is an empty line here, and is passed
over like one. -/
def readQueryBindings (vars : QueryVariables) (file : String) :
    Except Err (List (List (String × String))) := do
  let rows ← mapOk (readLine vars) ((universalNewlines file.toList).splitOn '\n')
  .ok ((rows.filterMap id).eraseDups.insertionSort fun r s => sortKey r ≤ sortKey s)

/-! ### The lines of a file -/

theorem mem_intercalate_iff {c s : Char} {ls : List (List Char)} :
    c ∈ [s].intercalate ls ↔ (∃ l ∈ ls, c ∈ l) ∨ c = s ∧ 2 ≤ ls.length := by
  induction ls with
  | nil => simp
  | cons l ls ih =>
    cases ls with
    | nil => simp
    | cons l' ls =>
      rw [List.intercalate_cons_cons, List.mem_append, List.mem_append, ih, List.mem_singleton]
      have htwo : 2 ≤ (l :: l' :: ls).length := by simp
      constructor
      · rintro ((h | h) | ⟨l₁, hl₁, h⟩ | ⟨h, -⟩)
        · exact .inl ⟨l, List.mem_cons_self, h⟩
        · exact .inr ⟨h, htwo⟩
        · exact .inl ⟨l₁, List.mem_cons_of_mem l hl₁, h⟩
        · exact .inr ⟨h, htwo⟩
      · rintro (⟨l₁, hl₁, h⟩ | ⟨h, -⟩)
        · rcases List.mem_cons.mp hl₁ with rfl | hl₁
          · exact .inl (.inl h)
          · exact .inr (.inl ⟨l₁, hl₁, h⟩)
        · exact .inl (.inr h)

theorem mem_of_mem_splitOn {c s : Char} {cs l : List Char} (hl : l ∈ cs.splitOn s) (hc : c ∈ l) :
    c ∈ cs := by
  have hjoined : [s].intercalate (cs.splitOn s) = cs := List.intercalate_splitOn s
  rw [← hjoined]
  exact mem_intercalate_iff.mpr (.inl ⟨l, hl, hc⟩)

/-- The line of a row of values. -/
def lineOf (row : List String) : List Char :=
  ['\t'].intercalate (row.map fun v => encodeChars v.toList)

theorem writeTsv_eq (rows : List (List String)) :
    (writeTsv rows).toList = rows.flatMap fun row => lineOf row ++ ['\n'] := by
  unfold writeTsv tsvText lineOf
  rw [String.toList_ofList, List.flatMap_map]
  apply List.flatMap_congr
  intro row _
  have hcells : (row.map tsvCellV1Encode).map String.toList =
      row.map fun v => encodeChars v.toList := by
    rw [List.map_map]
    apply List.map_congr_left
    intro v _
    exact String.toList_ofList
  rw [hcells]

theorem line_not_mem_lineOf (row : List String) : '\n' ∉ lineOf row := by
  intro h
  rcases mem_intercalate_iff.mp h with ⟨l, hl, hc⟩ | ⟨hc, -⟩
  · obtain ⟨v, -, rfl⟩ := List.mem_map.mp hl
    exact line_not_mem_encodeChars v.toList hc
  · cases hc

theorem splitOn_lines (rows : List (List String)) :
    (rows.flatMap fun row => lineOf row ++ ['\n']).splitOn '\n' = rows.map lineOf ++ [[]] := by
  induction rows with
  | nil => rfl
  | cons row rows ih =>
    rw [List.flatMap_cons, List.append_assoc, List.singleton_append,
      List.splitOn_append_cons_self_of_not_mem (line_not_mem_lineOf row), ih]
    rfl

/-! ## Rows -/

/-- The rows of a result. -/
structure QueryResult (vars : QueryVariables) where
  rows : List (List String)
  arity : ∀ row ∈ rows, row.length = vars.names.length

/-- A row that comes back: it is no empty line, and no value in it ends a line. -/
def ReadBack (row : List String) : Prop := row ≠ [""] ∧ ∀ v ∈ row, '\r' ∉ v.toList

theorem lineOf_ne_nil {row : List String} (hrow : row ≠ []) (hread : row ≠ [""]) : lineOf row ≠ [] := by
  intro h
  rcases row with _ | ⟨v, _ | ⟨w, row⟩⟩
  · exact hrow rfl
  · -- one cell, which is the line
    have hnil : encodeChars v.toList = [] := by simpa [lineOf] using h
    have hlength := length_le_encodeChars v.toList
    rw [hnil, List.length_nil, Nat.le_zero, List.length_eq_zero_iff] at hlength
    exact hread (by rw [String.toList_eq_nil_iff.mp hlength])
  · have hmem : '\t' ∈ lineOf (v :: w :: row) := mem_intercalate_iff.mpr (.inr ⟨rfl, by simp⟩)
    rw [h] at hmem
    cases hmem

theorem splitOn_lineOf {row : List String} (hrow : row ≠ []) :
    (lineOf row).splitOn '\t' = row.map fun v => encodeChars v.toList := by
  apply List.splitOn_intercalate
  · intro l hl
    obtain ⟨v, -, rfl⟩ := List.mem_map.mp hl
    exact tab_not_mem_encodeChars v.toList
  · simpa using hrow

theorem mapOk_decode (row : List String) :
    mapOk (fun cell => tsvCellV1Decode (String.ofList cell))
      (row.map fun v => encodeChars v.toList) = .ok row := by
  induction row with
  | nil => rfl
  | cons v row ih =>
    rw [List.map_cons, mapOk, ih]
    have hcell := tsvCellV1Decode_encode v
    unfold tsvCellV1Encode at hcell
    rw [hcell]
    rfl

theorem readLine_lineOf (vars : QueryVariables) {row : List String}
    (hlength : row.length = vars.names.length) (hread : row ≠ [""]) :
    readLine vars (lineOf row) = .ok (some (vars.names.zip row)) := by
  have hrow : row ≠ [] := by
    intro h
    rw [h, List.length_nil] at hlength
    exact vars.nonempty (List.length_eq_zero_iff.mp hlength.symm)
  unfold readLine
  rw [if_neg (by simpa using lineOf_ne_nil hrow hread), splitOn_lineOf hrow, mapOk_decode, ok_bind,
    require_of_true (by simpa using hlength)]
  rfl

theorem mapOk_lines (vars : QueryVariables) {rows : List (List String)}
    (h : ∀ row ∈ rows, row.length = vars.names.length ∧ row ≠ [""]) :
    mapOk (readLine vars) (rows.map lineOf ++ [[]]) =
      .ok (rows.map (fun row => some (vars.names.zip row)) ++ [none]) := by
  induction rows with
  | nil => rfl
  | cons row rows ih =>
    obtain ⟨hlength, hread⟩ := h row List.mem_cons_self
    rw [List.map_cons, List.cons_append, mapOk, readLine_lineOf vars hlength hread,
      ih fun r hr => h r (List.mem_cons_of_mem row hr)]
    rfl

theorem mem_result {rows : List (Option (List (String × String)))} {b : List (String × String)} :
    b ∈ ((rows.filterMap id).eraseDups.insertionSort fun r s => sortKey r ≤ sortKey s) ↔
      some b ∈ rows := by
  rw [List.mem_insertionSort, List.mem_eraseDups, List.mem_filterMap]
  simp

/-- A row that was read is one that comes back: no cell of a line read has a carriage return, and a
line that is read is not empty. -/
theorem readBack_of_read {vars : QueryVariables} {file : String}
    {out : List (List (String × String))} (h : readQueryBindings vars file = .ok out)
    {row : List String} (hlength : row.length = vars.names.length)
    (hmem : vars.names.zip row ∈ out) : ReadBack row := by
  unfold readQueryBindings at h
  obtain ⟨rows, hrows, hout⟩ := bind_ok_iff.mp h
  cases hout
  obtain ⟨line, hline, hread⟩ := mem_of_mapOk hrows (mem_result.mp hmem)
  unfold readLine at hread
  split_ifs at hread with hempty
  · cases hread
  obtain ⟨cells, hcells, hread⟩ := bind_ok_iff.mp hread
  obtain ⟨harity, hread⟩ := bind_unit_ok_iff.mp hread
  have hzip : vars.names.zip cells = vars.names.zip row :=
    Option.some.inj (Except.ok.inj hread)
  have hcount : cells.length = vars.names.length := by simpa using harity
  have heq : cells = row := by
    have hsnd := congrArg (List.map Prod.snd) hzip
    rwa [List.map_snd_zip (by omega), List.map_snd_zip (by omega)] at hsnd
  subst heq
  refine ⟨?_, ?_⟩
  · intro hone
    subst hone
    -- one cell, which is the line
    obtain ⟨cell, hsplit⟩ : ∃ cell, line.splitOn '\t' = [cell] := by
      have hsame := (mapOk_ok_iff.mp hcells).length_eq
      exact List.length_eq_one_iff.mp hsame
    have hjoined : ['\t'].intercalate (line.splitOn '\t') = line := List.intercalate_splitOn '\t'
    rw [hsplit, List.intercalate_singleton] at hjoined
    rw [hsplit] at hcells
    obtain ⟨c, hc, hdecode⟩ := mem_of_mapOk hcells (List.mem_singleton.mpr rfl)
    rw [List.mem_singleton] at hc
    subst hc
    unfold tsvCellV1Decode at hdecode
    rw [String.toList_ofList] at hdecode
    obtain ⟨x, hx, hnil⟩ := map_ok hdecode
    have hxnil : x = [] := by
      have htexts := congrArg String.toList hnil.symm
      rwa [String.toList_ofList] at htexts
    subst hxnil
    have hcell := eq_nil_of_decodeChars hx
    exact hempty (by rw [← hjoined, hcell]; rfl)
  · intro v hv hreturn
    obtain ⟨cell, hcell, hdecode⟩ := mem_of_mapOk hcells hv
    unfold tsvCellV1Decode at hdecode
    rw [String.toList_ofList] at hdecode
    obtain ⟨x, hx, rfl⟩ := map_ok hdecode
    rw [String.toList_ofList] at hreturn
    rcases mem_of_decodeChars hx hreturn with hc | hc
    · have hfile := mem_of_mem_splitOn hline (mem_of_mem_splitOn hcell hc)
      exact not_mem_universalNewlines file.toList hfile
    · simp at hc

/-- **When transport is faithful.** The symbols of a value in a fact, in a literal and in an output are
one exactly if the value has no backslash, no tab and no end of a line. The rows of a result, whose
symbols Soufflé prints as `write_tsv` writes the values, are read back exactly if no value has a
carriage return and no row is a single empty value. -/
theorem transport_faithful_iff (v : String) (vars : QueryVariables) (result : QueryResult vars) :
    (symbolOfLiteral? (textToSymbol v) = some (tsvCellV1Encode v) ∧
        tsvCellV1Decode (tsvCellV1Encode v) = .ok (tsvCellV1Encode v) ↔ Plain v) ∧
      ((∃ out, readQueryBindings vars (writeTsv result.rows) = .ok out ∧
        ∀ binding, binding ∈ out ↔ ∃ row ∈ result.rows, vars.names.zip row = binding) ↔
      ∀ row ∈ result.rows, ReadBack row) := by
  refine ⟨?_, ?_⟩
  · rw [symbolOfLiteral?_textToSymbol, tsvCellV1Decode_encode, ← tsvCellV1Encode_eq_self_iff]
    constructor
    · intro h
      exact (Option.some.inj h.1).symm
    · intro h
      exact ⟨congrArg some h.symm, congrArg Except.ok h.symm⟩
  · constructor
    · intro ⟨out, hout, hmem⟩ row hrow
      exact readBack_of_read hout (result.arity row hrow) ((hmem _).mpr ⟨row, hrow, rfl⟩)
    · intro hread
      have hreturn : '\r' ∉ result.rows.flatMap fun row => lineOf row ++ ['\n'] := by
        intro h
        obtain ⟨row, hrow, h⟩ := List.mem_flatMap.mp h
        rcases List.mem_append.mp h with h | h
        · rcases mem_intercalate_iff.mp h with ⟨l, hl, hc⟩ | ⟨hc, -⟩
          · obtain ⟨v, hv, rfl⟩ := List.mem_map.mp hl
            exact return_not_mem_encodeChars ((hread row hrow).2 v hv) hc
          · cases hc
        · simp at h
      have hlines := mapOk_lines vars
        fun row hrow => ⟨result.arity row hrow, (hread row hrow).1⟩
      have hout : readQueryBindings vars (writeTsv result.rows) = .ok
          (((result.rows.map (fun row => some (vars.names.zip row)) ++ [none]).filterMap id).eraseDups
            |>.insertionSort fun r s => sortKey r ≤ sortKey s) := by
        unfold readQueryBindings
        rw [writeTsv_eq, universalNewlines_of_not_mem hreturn, splitOn_lines, hlines, ok_bind]
      refine ⟨_, hout, ?_⟩
      intro binding
      rw [mem_result]
      simp

/-- A backslash is two symbols, and the row of an empty value does not come back. -/
theorem backslash_two_symbols :
    symbolOfLiteral? (textToSymbol "\\") ≠ some (tsvCellV1Encode "\\") ∧
      readQueryBindings ⟨["$x"], by simp, by simp⟩ (writeTsv [[""]]) = .ok [] := by
  refine ⟨?_, rfl⟩
  decide

end FactGraph.Souffle.Transport
