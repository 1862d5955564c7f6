import FactGraph.Lib.Dict
import FactGraph.Lib.Doc

/-!
# JSON texts

Writing a document as a compact JSON text and reading such a text. What stands between brackets,
commas and quotes is a word: a literal name or a numeral, whose meaning is the business of whoever
uses the text. Strings are written by any `Escaping`, that is by any way of writing characters that
the scanner reads back.

A text that was written is read as the document it was written from (`loads?_dumps`), so no two
documents share a text (`dumps_injective`).
-/

namespace JsonText

/-- A leaf of a text. -/
inductive Token where
  | word (text : String)
  | str (s : String)
  deriving DecidableEq, Repr

/-! ## Strings -/

def hexNibble? (c : Char) : Option Nat :=
  if '0' ≤ c ∧ c ≤ '9' then some (c.toNat - 48)
  else if 'a' ≤ c ∧ c ≤ 'f' then some (c.toNat - 87)
  else if 'A' ≤ c ∧ c ≤ 'F' then some (c.toNat - 55) else none

/-- The code unit that four hexadecimal digits stand for. -/
def codeUnit? (a b c d : Char) : Option Nat := do
  let a ← hexNibble? a
  let b ← hexNibble? b
  let c ← hexNibble? c
  let d ← hexNibble? d
  some (a * 4096 + b * 256 + c * 16 + d)

/-- The character after a backslash, when it is not `u`. -/
def shortEscape? : Char → Option Char
  | '"' => some '"'
  | '\\' => some '\\'
  | '/' => some '/'
  | 'b' => some (Char.ofNat 8)
  | 'f' => some (Char.ofNat 12)
  | 'n' => some '\n'
  | 'r' => some '\r'
  | 't' => some '\t'
  | _ => none

def consChar (c : Char) (p : List Char × List Char) : List Char × List Char := (c :: p.1, p.2)

/-- A string from behind its opening quote: its characters, and what follows its closing quote. A
surrogate that is not one half of a pair is no character. -/
def scanString : List Char → Option (List Char × List Char)
  | [] => none
  | '"' :: rest => some ([], rest)
  | '\\' :: 'u' :: a :: b :: c :: d :: rest =>
      match codeUnit? a b c d with
      | none => none
      | some u =>
          if 0xd800 ≤ u ∧ u < 0xdc00 then
            match rest with
            | '\\' :: 'u' :: e :: f :: g :: h :: rest =>
                match codeUnit? e f g h with
                | none => none
                | some l =>
                    if 0xdc00 ≤ l ∧ l < 0xe000 then
                      (scanString rest).map
                        (consChar (Char.ofNat (0x10000 + (u - 0xd800) * 0x400 + (l - 0xdc00))))
                    else none
            | _ => none
          else if 0xdc00 ≤ u ∧ u < 0xe000 then none
          else (scanString rest).map (consChar (Char.ofNat u))
  | '\\' :: e :: rest =>
      match shortEscape? e with
      | none => none
      | some c => (scanString rest).map (consChar c)
  | c :: rest =>
      -- a control character may only be written as an escape, and a backslash has something behind it
      if c.toNat < 32 ∨ c = '\\' then none else (scanString rest).map (consChar c)

/-- A way of writing characters that the scanner reads back. -/
structure Escaping where
  write : Char → List Char
  reads : ∀ c rest, scanString (write c ++ rest) = (scanString rest).map (consChar c)

/-- A quoted string. -/
def quote (e : Escaping) (s : String) : List Char := '"' :: s.toList.flatMap e.write ++ ['"']

theorem scanString_quoted (e : Escaping) (cs rest : List Char) :
    scanString (cs.flatMap e.write ++ '"' :: rest) = some (cs, rest) := by
  induction cs with
  | nil => simp [scanString]
  | cons c cs ih =>
    rw [List.flatMap_cons, List.append_assoc, e.reads, ih]
    rfl

/-! ## Words -/

/-- The characters of literal names and numerals. -/
def isWordChar (c : Char) : Bool := c.isAlphanum || c == '+' || c == '-' || c == '.'

/-- A text that stands as a word of its own. -/
def isWord (w : String) : Bool := !w.toList.isEmpty && w.toList.all isWordChar

/-- What may follow a value: the end of the text, or a character that ends a word. -/
def Ended (rest : List Char) : Prop := ∀ c ∈ rest.head?, isWordChar c = false

theorem ended_nil : Ended [] := by simp [Ended]

theorem ended_cons {c : Char} {rest : List Char} (h : isWordChar c = false) : Ended (c :: rest) := by
  simpa [Ended] using h

theorem span_word {w rest : List Char} (hw : ∀ c ∈ w, isWordChar c = true) (hrest : Ended rest) :
    (w ++ rest).takeWhile isWordChar = w ∧ (w ++ rest).dropWhile isWordChar = rest := by
  induction w with
  | nil =>
    cases rest with
    | nil => simp
    | cons c rest =>
      have hc : isWordChar c = false := hrest c (by simp)
      simp [hc]
  | cons c w ih =>
    have hc : isWordChar c = true := hw c (by simp)
    have htail := ih fun d hd => hw d (by simp [hd])
    simpa [hc] using htail

/-! ## Reading -/

def isBlank (c : Char) : Bool := c == ' ' || c == '\t' || c == '\n' || c == '\r'

def skipBlanks (cs : List Char) : List Char := cs.dropWhile isBlank

mutual

/-- A value, and what follows it. Objects are the pairs they are written as. -/
def scanValue : Nat → List Char → Option (Doc Token × List Char)
  | 0, _ => none
  | n + 1, cs =>
      match cs with
      | '"' :: rest => (scanString rest).map fun p => (.leaf (.str (String.ofList p.1)), p.2)
      | '[' :: rest =>
          match skipBlanks rest with
          | ']' :: rest => some (.arr [], rest)
          | rest => (scanItems n rest).map fun p => (.arr p.1, p.2)
      | '{' :: rest =>
          match skipBlanks rest with
          | '}' :: rest => some (.obj [], rest)
          | rest => (scanMembers n rest).map fun p => (.obj p.1, p.2)
      | cs =>
          let w := cs.takeWhile isWordChar
          if w.isEmpty then none
          else some (.leaf (.word (String.ofList w)), cs.dropWhile isWordChar)

def scanItems : Nat → List Char → Option (List (Doc Token) × List Char)
  | 0, _ => none
  | n + 1, cs =>
      match scanValue n cs with
      | none => none
      | some (x, rest) =>
          match skipBlanks rest with
          | ']' :: rest => some ([x], rest)
          | ',' :: rest => (scanItems n (skipBlanks rest)).map fun p => (x :: p.1, p.2)
          | _ => none

def scanMembers : Nat → List Char → Option (List (String × Doc Token) × List Char)
  | 0, _ => none
  | n + 1, cs =>
      match cs with
      | '"' :: rest =>
          match scanString rest with
          | none => none
          | some (key, rest) =>
              match skipBlanks rest with
              | ':' :: rest =>
                  match scanValue n (skipBlanks rest) with
                  | none => none
                  | some (x, rest) =>
                      match skipBlanks rest with
                      | '}' :: rest => some ([(String.ofList key, x)], rest)
                      | ',' :: rest =>
                          (scanMembers n (skipBlanks rest)).map fun p =>
                            ((String.ofList key, x) :: p.1, p.2)
                      | _ => none
              | _ => none
      | _ => none

end

/-- A whole text, as the pairs its objects are written as. -/
def scan? (text : String) : Option (Doc Token) :=
  match scanValue (text.toList.length + 1) (skipBlanks text.toList) with
  | some (x, rest) => if (skipBlanks rest).isEmpty then some x else none
  | none => none

section Dicts

variable {L : Type*}

mutual

/-- Every object as a `dict` of its pairs: a key keeps its first place and its last value. -/
def asDicts : Doc L → Doc L
  | .leaf l => .leaf l
  | .arr xs => .arr (asDictsList xs)
  | .obj fs => .obj (Dict.update [] (asDictsFields fs))

def asDictsList : List (Doc L) → List (Doc L)
  | [] => []
  | x :: xs => asDicts x :: asDictsList xs

def asDictsFields : List (String × Doc L) → List (String × Doc L)
  | [] => []
  | (k, x) :: fs => (k, asDicts x) :: asDictsFields fs

end

end Dicts

/-- `json.loads`, down to its words. -/
def loads? (text : String) : Option (Doc Token) := (scan? text).map asDicts

/-! ## Writing -/

mutual

/-- A value without blanks. -/
def dumpChars (e : Escaping) : Doc Token → List Char
  | .leaf (.word w) => w.toList
  | .leaf (.str s) => quote e s
  | .arr xs => '[' :: dumpItems e xs ++ [']']
  | .obj fs => '{' :: dumpMembers e fs ++ ['}']

def dumpItems (e : Escaping) : List (Doc Token) → List Char
  | [] => []
  | [x] => dumpChars e x
  | x :: xs => dumpChars e x ++ ',' :: dumpItems e xs

def dumpMembers (e : Escaping) : List (String × Doc Token) → List Char
  | [] => []
  | [(k, x)] => quote e k ++ ':' :: dumpChars e x
  | (k, x) :: fs => quote e k ++ ':' :: dumpChars e x ++ ',' :: dumpMembers e fs

end

/-- `json.dumps(value, separators=(",", ":"))`. -/
def dumps (e : Escaping) (x : Doc Token) : String := String.ofList (dumpChars e x)

mutual

/-- Every word of a document is one. -/
def wordsOk : Doc Token → Bool
  | .leaf (.word w) => isWord w
  | .leaf (.str _) => true
  | .arr xs => wordsOkList xs
  | .obj fs => wordsOkFields fs

def wordsOkList : List (Doc Token) → Bool
  | [] => true
  | x :: xs => wordsOk x && wordsOkList xs

def wordsOkFields : List (String × Doc Token) → Bool
  | [] => true
  | (_, x) :: fs => wordsOk x && wordsOkFields fs

end

/-! ## Reading what was written -/

/-- A written value starts with a character that is no blank and closes no bracket. -/
theorem dumpChars_head (e : Escaping) {x : Doc Token} (h : wordsOk x = true) :
    ∃ c cs, dumpChars e x = c :: cs ∧ isBlank c = false ∧ c ≠ ']' ∧ c ≠ '}' := by
  cases x with
  | leaf t =>
    cases t with
    | str s => exact ⟨'"', _, rfl, by decide, by decide, by decide⟩
    | word w =>
      have hw : isWord w = true := h
      unfold dumpChars
      unfold isWord at hw
      cases hcs : w.toList with
      | nil => simp [hcs] at hw
      | cons c cs =>
        simp only [hcs, List.isEmpty_cons, Bool.not_false, Bool.true_and, List.all_cons,
          Bool.and_eq_true] at hw
        refine ⟨c, cs, rfl, ?_, ?_, ?_⟩
        · by_contra hblank
          have hc : isBlank c = true := by simpa using hblank
          simp only [isBlank, Bool.or_eq_true, beq_iff_eq] at hc
          rcases hc with ((rfl | rfl) | rfl) | rfl <;> exact absurd hw.1 (by decide)
        · intro heq
          subst heq
          exact absurd hw.1 (by decide)
        · intro heq
          subst heq
          exact absurd hw.1 (by decide)
  | arr xs => exact ⟨'[', _, rfl, by decide, by decide, by decide⟩
  | obj fs => exact ⟨'{', _, rfl, by decide, by decide, by decide⟩

theorem skipBlanks_cons {c : Char} {cs : List Char} (h : isBlank c = false) :
    skipBlanks (c :: cs) = c :: cs := by
  simp [skipBlanks, h]

theorem skipBlanks_dumpChars (e : Escaping) {x : Doc Token} (h : wordsOk x = true)
    (rest : List Char) : skipBlanks (dumpChars e x ++ rest) = dumpChars e x ++ rest := by
  obtain ⟨c, cs, hdump, hblank, -⟩ := dumpChars_head e h
  rw [hdump]
  exact skipBlanks_cons hblank

theorem dumpItems_head (e : Escaping) {x : Doc Token} {xs : List (Doc Token)}
    (h : wordsOkList (x :: xs) = true) :
    ∃ c cs, dumpItems e (x :: xs) = c :: cs ∧ isBlank c = false ∧ c ≠ ']' := by
  have hx : wordsOk x = true := by
    simp only [wordsOkList, Bool.and_eq_true] at h
    exact h.1
  obtain ⟨c, cs, hdump, hblank, hclose, -⟩ := dumpChars_head e hx
  cases xs with
  | nil => exact ⟨c, cs, by simp [dumpItems, hdump], hblank, hclose⟩
  | cons y ys =>
    exact ⟨c, cs ++ ',' :: dumpItems e (y :: ys), by simp [dumpItems, hdump], hblank, hclose⟩

theorem dumpMembers_head (e : Escaping) (k : String) (x : Doc Token)
    (fs : List (String × Doc Token)) :
    ∃ cs, dumpMembers e ((k, x) :: fs) = '"' :: cs := by
  cases fs with
  | nil => exact ⟨_, rfl⟩
  | cons f fs => exact ⟨_, rfl⟩

theorem scanValue_quote (e : Escaping) (n : Nat) (s : String) (rest : List Char) :
    scanValue (n + 1) (quote e s ++ rest) = some (.leaf (.str s), rest) := by
  have hstring := scanString_quoted e s.toList rest
  simp only [quote, List.cons_append, List.append_assoc, List.nil_append, scanValue, hstring]
  simp

theorem scanValue_word (n : Nat) {w : String} (hw : isWord w = true) {rest : List Char}
    (hrest : Ended rest) :
    scanValue (n + 1) (w.toList ++ rest) = some (.leaf (.word w), rest) := by
  have hword := hw
  simp only [isWord, Bool.and_eq_true, List.all_eq_true, Bool.not_eq_true'] at hword
  obtain ⟨htake, hdrop⟩ := span_word hword.2 hrest
  cases hcs : w.toList with
  | nil => simp [hcs] at hword
  | cons c cs =>
    have hc : isWordChar c = true := hword.2 c (by simp [hcs])
    rw [hcs] at htake hdrop
    rw [List.cons_append] at htake hdrop ⊢
    unfold scanValue
    split
    · rename_i heq
      cases heq
      exact absurd hc (by decide)
    · rename_i heq
      cases heq
      exact absurd hc (by decide)
    · rename_i heq
      cases heq
      exact absurd hc (by decide)
    · simp only [htake, hdrop, List.isEmpty_cons, Bool.false_eq_true, if_false]
      rw [← hcs, String.ofList_toList]

mutual

/-- A written value is read back, whatever follows it; its length is fuel enough. -/
theorem scanValue_dumpChars (e : Escaping) : ∀ (x : Doc Token) (n : Nat) (rest : List Char),
    wordsOk x = true → (dumpChars e x).length ≤ n → Ended rest →
      scanValue n (dumpChars e x ++ rest) = some (x, rest)
  | x, 0, rest, hx, hn, _ => by
      obtain ⟨c, cs, hdump, -⟩ := dumpChars_head e hx
      simp [hdump] at hn
  | .leaf (.str s), n + 1, rest, _, _, _ => scanValue_quote e n s rest
  | .leaf (.word w), n + 1, rest, hx, _, hrest => scanValue_word n hx hrest
  | .arr [], n + 1, rest, _, _, _ => by
      simp [dumpChars, dumpItems, scanValue, skipBlanks, isBlank]
  | .arr (x :: xs), n + 1, rest, hx, hn, _ => by
      have hxs : wordsOkList (x :: xs) = true := hx
      have hlen : (dumpItems e (x :: xs)).length + 1 ≤ n := by
        simp only [dumpChars, List.length_append, List.length_cons, List.length_nil] at hn
        omega
      have hitems := scanItems_dumpItems e x xs n rest hxs hlen
      obtain ⟨c, cs, hhead, hblank, hclose⟩ := dumpItems_head e hxs
      simp only [dumpChars, List.cons_append, List.append_assoc, List.nil_append, scanValue]
      rw [hhead, List.cons_append] at hitems ⊢
      rw [skipBlanks_cons hblank]
      split
      · rename_i heq
        cases heq
        exact absurd rfl hclose
      · rw [hitems]
        rfl
  | .obj [], n + 1, rest, _, _, _ => by
      simp [dumpChars, dumpMembers, scanValue, skipBlanks, isBlank]
  | .obj ((k, x) :: fs), n + 1, rest, hx, hn, _ => by
      have hlen : (dumpMembers e ((k, x) :: fs)).length + 1 ≤ n := by
        simp only [dumpChars, List.length_append, List.length_cons, List.length_nil] at hn
        omega
      have hmembers := scanMembers_dumpMembers e k x fs n rest hx hlen
      obtain ⟨cs, hhead⟩ := dumpMembers_head e k x fs
      simp only [dumpChars, List.cons_append, List.append_assoc, List.nil_append, scanValue]
      rw [hhead, List.cons_append] at hmembers ⊢
      rw [skipBlanks_cons (by decide)]
      split
      · rename_i heq
        cases heq
      · rw [hmembers]
        rfl

theorem scanItems_dumpItems (e : Escaping) : ∀ (x : Doc Token) (xs : List (Doc Token)) (n : Nat)
    (rest : List Char), wordsOkList (x :: xs) = true → (dumpItems e (x :: xs)).length + 1 ≤ n →
      scanItems n (dumpItems e (x :: xs) ++ ']' :: rest) = some (x :: xs, rest)
  | x, xs, 0, rest, _, hn => by omega
  | x, [], n + 1, rest, hx, hn => by
      have hword : wordsOk x = true := by simpa [wordsOkList] using hx
      have hvalue := scanValue_dumpChars e x n (']' :: rest) hword
        (by simp only [dumpItems] at hn; omega) (ended_cons (by decide))
      simp only [dumpItems, scanItems, hvalue, skipBlanks_cons (c := ']') (by decide)]
  | x, y :: ys, n + 1, rest, hx, hn => by
      have hsplit : wordsOk x = true ∧ wordsOkList (y :: ys) = true := by
        simpa [wordsOkList, and_assoc] using hx
      have hlen : (dumpChars e x).length + ((dumpItems e (y :: ys)).length + 1) ≤ n := by
        simp only [dumpItems, List.length_append, List.length_cons] at hn ⊢
        omega
      have hvalue := scanValue_dumpChars e x n (',' :: (dumpItems e (y :: ys) ++ ']' :: rest))
        hsplit.1 (by omega) (ended_cons (by decide))
      have hitems := scanItems_dumpItems e y ys n rest hsplit.2 (by omega)
      obtain ⟨c, cs, hhead, hblank, -⟩ := dumpItems_head e hsplit.2
      have hshape : dumpItems e (x :: y :: ys) ++ ']' :: rest =
          dumpChars e x ++ ',' :: (dumpItems e (y :: ys) ++ ']' :: rest) := by
        simp [dumpItems]
      rw [hshape, scanItems, hvalue]
      simp only [skipBlanks_cons (c := ',') (by decide)]
      rw [hhead, List.cons_append] at hitems ⊢
      rw [skipBlanks_cons hblank, hitems]
      rfl

theorem scanMembers_dumpMembers (e : Escaping) : ∀ (k : String) (x : Doc Token)
    (fs : List (String × Doc Token)) (n : Nat) (rest : List Char),
    wordsOkFields ((k, x) :: fs) = true → (dumpMembers e ((k, x) :: fs)).length + 1 ≤ n →
      scanMembers n (dumpMembers e ((k, x) :: fs) ++ '}' :: rest) = some ((k, x) :: fs, rest)
  | k, x, fs, 0, rest, _, hn => by omega
  | k, x, [], n + 1, rest, hx, hn => by
      have hword : wordsOk x = true := by simpa [wordsOkFields] using hx
      have hkey := scanString_quoted e k.toList (':' :: (dumpChars e x ++ '}' :: rest))
      have hvalue := scanValue_dumpChars e x n ('}' :: rest) hword
        (by simp only [dumpMembers, List.length_append, List.length_cons] at hn; omega)
        (ended_cons (by decide))
      have hskip := skipBlanks_dumpChars e hword ('}' :: rest)
      have hshape : dumpMembers e [(k, x)] ++ '}' :: rest =
          '"' :: (k.toList.flatMap e.write ++ '"' :: ':' :: (dumpChars e x ++ '}' :: rest)) := by
        simp [dumpMembers, quote]
      rw [hshape, scanMembers, hkey]
      simp only [skipBlanks_cons (c := ':') (by decide), hskip, hvalue,
        skipBlanks_cons (c := '}') (by decide), String.ofList_toList]
  | k, x, (l, y) :: gs, n + 1, rest, hx, hn => by
      have hsplit : wordsOk x = true ∧ wordsOkFields ((l, y) :: gs) = true := by
        simpa [wordsOkFields, and_assoc] using hx
      have hlen : (dumpChars e x).length + ((dumpMembers e ((l, y) :: gs)).length + 1) ≤ n := by
        simp only [dumpMembers, List.length_append, List.length_cons] at hn ⊢
        omega
      have hkey := scanString_quoted e k.toList
        (':' :: (dumpChars e x ++ ',' :: (dumpMembers e ((l, y) :: gs) ++ '}' :: rest)))
      have hvalue := scanValue_dumpChars e x n
        (',' :: (dumpMembers e ((l, y) :: gs) ++ '}' :: rest)) hsplit.1 (by omega)
        (ended_cons (by decide))
      have hskip := skipBlanks_dumpChars e hsplit.1
        (',' :: (dumpMembers e ((l, y) :: gs) ++ '}' :: rest))
      have hmembers := scanMembers_dumpMembers e l y gs n rest hsplit.2 (by omega)
      obtain ⟨cs, hhead⟩ := dumpMembers_head e l y gs
      have hshape : dumpMembers e ((k, x) :: (l, y) :: gs) ++ '}' :: rest =
          '"' :: (k.toList.flatMap e.write ++ '"' ::
            ':' :: (dumpChars e x ++ ',' :: (dumpMembers e ((l, y) :: gs) ++ '}' :: rest))) := by
        simp [dumpMembers, quote]
      rw [hshape, scanMembers, hkey]
      simp only [skipBlanks_cons (c := ':') (by decide), hskip, hvalue,
        skipBlanks_cons (c := ',') (by decide), String.ofList_toList]
      rw [hhead, List.cons_append] at hmembers ⊢
      rw [skipBlanks_cons (by decide), hmembers]
      rfl

end

/-- A text that was written is scanned as the document it was written from. -/
theorem scan?_dumps (e : Escaping) {x : Doc Token} (hx : wordsOk x = true) :
    scan? (dumps e x) = some x := by
  have hvalue := scanValue_dumpChars e x ((dumpChars e x).length + 1) [] hx (by omega) ended_nil
  have hskip := skipBlanks_dumpChars e hx []
  rw [List.append_nil] at hvalue hskip
  unfold scan? dumps
  rw [String.toList_ofList, hskip, hvalue]
  rfl

/-- No two documents share a text. -/
theorem dumps_injective (e : Escaping) {x y : Doc Token} (hx : wordsOk x = true)
    (hy : wordsOk y = true) (h : dumps e x = dumps e y) : x = y := by
  have hscan := scan?_dumps e hx
  rw [h, scan?_dumps e hy] at hscan
  exact (Option.some.inj hscan).symm

/-! ## Objects with distinct keys -/

section Distinct

variable {L : Type*}

mutual

/-- No object of the document has two fields of one key. -/
def keysDistinct : Doc L → Prop
  | .leaf _ => True
  | .arr xs => keysDistinctList xs
  | .obj fs => (Dict.keys fs).Nodup ∧ keysDistinctFields fs

def keysDistinctList : List (Doc L) → Prop
  | [] => True
  | x :: xs => keysDistinct x ∧ keysDistinctList xs

def keysDistinctFields : List (String × Doc L) → Prop
  | [] => True
  | (_, x) :: fs => keysDistinct x ∧ keysDistinctFields fs

end

mutual

theorem asDicts_of_distinct : ∀ x : Doc L, keysDistinct x → asDicts x = x
  | .leaf _, _ => rfl
  | .arr xs, h => by rw [asDicts, asDictsList_of_distinct xs h]
  | .obj fs, h => by
      rw [asDicts, asDictsFields_of_distinct fs h.2, Dict.update_append (by simpa using h.1),
        List.nil_append]

theorem asDictsList_of_distinct : ∀ xs : List (Doc L), keysDistinctList xs → asDictsList xs = xs
  | [], _ => rfl
  | x :: xs, h => by
      rw [asDictsList, asDicts_of_distinct x h.1, asDictsList_of_distinct xs h.2]

theorem asDictsFields_of_distinct : ∀ fs : List (String × Doc L), keysDistinctFields fs →
    asDictsFields fs = fs
  | [], _ => rfl
  | (k, x) :: fs, h => by
      rw [asDictsFields, asDicts_of_distinct x h.1, asDictsFields_of_distinct fs h.2]

end

end Distinct

/-! ## Leaves -/

section Leaves

variable {L M N : Type*}

mutual

/-- The document with every leaf replaced. -/
def mapLeaves (f : L → M) : Doc L → Doc M
  | .leaf l => .leaf (f l)
  | .arr xs => .arr (mapLeavesList f xs)
  | .obj fs => .obj (mapLeavesFields f fs)

def mapLeavesList (f : L → M) : List (Doc L) → List (Doc M)
  | [] => []
  | x :: xs => mapLeaves f x :: mapLeavesList f xs

def mapLeavesFields (f : L → M) : List (String × Doc L) → List (String × Doc M)
  | [] => []
  | (k, x) :: fs => (k, mapLeaves f x) :: mapLeavesFields f fs

end

mutual

/-- The document with every leaf read, if all can be. -/
def readLeaves? (f : L → Option M) : Doc L → Option (Doc M)
  | .leaf l => (f l).map .leaf
  | .arr xs => (readLeavesList? f xs).map .arr
  | .obj fs => (readLeavesFields? f fs).map .obj

def readLeavesList? (f : L → Option M) : List (Doc L) → Option (List (Doc M))
  | [] => some []
  | x :: xs => do
      let y ← readLeaves? f x
      let ys ← readLeavesList? f xs
      some (y :: ys)

def readLeavesFields? (f : L → Option M) : List (String × Doc L) → Option (List (String × Doc M))
  | [] => some []
  | (k, x) :: fs => do
      let y ← readLeaves? f x
      let gs ← readLeavesFields? f fs
      some ((k, y) :: gs)

end

mutual

def allLeaves (p : L → Bool) : Doc L → Bool
  | .leaf l => p l
  | .arr xs => allLeavesList p xs
  | .obj fs => allLeavesFields p fs

def allLeavesList (p : L → Bool) : List (Doc L) → Bool
  | [] => true
  | x :: xs => allLeaves p x && allLeavesList p xs

def allLeavesFields (p : L → Bool) : List (String × Doc L) → Bool
  | [] => true
  | (_, x) :: fs => allLeaves p x && allLeavesFields p fs

end

mutual

theorem allLeaves_true : ∀ x : Doc L, allLeaves (fun _ => true) x = true
  | .leaf _ => rfl
  | .arr xs => allLeavesList_true xs
  | .obj fs => allLeavesFields_true fs

theorem allLeavesList_true : ∀ xs : List (Doc L), allLeavesList (fun _ => true) xs = true
  | [] => rfl
  | x :: xs => by simp [allLeavesList, allLeaves_true x, allLeavesList_true xs]

theorem allLeavesFields_true :
    ∀ fs : List (String × Doc L), allLeavesFields (fun _ => true) fs = true
  | [] => rfl
  | (_, x) :: fs => by simp [allLeavesFields, allLeaves_true x, allLeavesFields_true fs]

end

mutual

theorem mapLeaves_mapLeaves (f : L → M) (g : M → N) :
    ∀ x : Doc L, mapLeaves g (mapLeaves f x) = mapLeaves (fun l => g (f l)) x
  | .leaf _ => rfl
  | .arr xs => congrArg Doc.arr (mapLeavesList_mapLeavesList f g xs)
  | .obj fs => congrArg Doc.obj (mapLeavesFields_mapLeavesFields f g fs)

theorem mapLeavesList_mapLeavesList (f : L → M) (g : M → N) : ∀ xs : List (Doc L),
    mapLeavesList g (mapLeavesList f xs) = mapLeavesList (fun l => g (f l)) xs
  | [] => rfl
  | x :: xs => by
      simp [mapLeavesList, mapLeaves_mapLeaves f g x, mapLeavesList_mapLeavesList f g xs]

theorem mapLeavesFields_mapLeavesFields (f : L → M) (g : M → N) : ∀ fs : List (String × Doc L),
    mapLeavesFields g (mapLeavesFields f fs) = mapLeavesFields (fun l => g (f l)) fs
  | [] => rfl
  | (k, x) :: fs => by
      simp [mapLeavesFields, mapLeaves_mapLeaves f g x, mapLeavesFields_mapLeavesFields f g fs]

end

theorem mapLeaves_congr {f g : L → M} (h : ∀ l, f l = g l) (x : Doc L) :
    mapLeaves f x = mapLeaves g x := by rw [funext h]

mutual

/-- Leaves that are read back make a document that is. -/
theorem readLeaves?_mapLeaves {p : L → Bool} {f : L → M} {g : M → Option N} {h : L → N}
    (hg : ∀ l, p l = true → g (f l) = some (h l)) :
    ∀ x : Doc L, allLeaves p x = true → readLeaves? g (mapLeaves f x) = some (mapLeaves h x)
  | .leaf l, hx => by rw [mapLeaves, readLeaves?, hg l hx, mapLeaves, Option.map_some]
  | .arr xs, hx => by
      rw [mapLeaves, readLeaves?, readLeavesList?_mapLeavesList hg xs hx, mapLeaves, Option.map_some]
  | .obj fs, hx => by
      rw [mapLeaves, readLeaves?, readLeavesFields?_mapLeavesFields hg fs hx, mapLeaves,
        Option.map_some]

theorem readLeavesList?_mapLeavesList {p : L → Bool} {f : L → M} {g : M → Option N} {h : L → N}
    (hg : ∀ l, p l = true → g (f l) = some (h l)) :
    ∀ xs : List (Doc L), allLeavesList p xs = true →
      readLeavesList? g (mapLeavesList f xs) = some (mapLeavesList h xs)
  | [], _ => rfl
  | x :: xs, hx => by
      simp only [allLeavesList, Bool.and_eq_true] at hx
      simp [mapLeavesList, readLeavesList?, readLeaves?_mapLeaves hg x hx.1,
        readLeavesList?_mapLeavesList hg xs hx.2]

theorem readLeavesFields?_mapLeavesFields {p : L → Bool} {f : L → M} {g : M → Option N}
    {h : L → N} (hg : ∀ l, p l = true → g (f l) = some (h l)) :
    ∀ fs : List (String × Doc L), allLeavesFields p fs = true →
      readLeavesFields? g (mapLeavesFields f fs) = some (mapLeavesFields h fs)
  | [], _ => rfl
  | (k, x) :: fs, hx => by
      simp only [allLeavesFields, Bool.and_eq_true] at hx
      simp [mapLeavesFields, readLeavesFields?, readLeaves?_mapLeaves hg x hx.1,
        readLeavesFields?_mapLeavesFields hg fs hx.2]

end

mutual

theorem wordsOk_mapLeaves {p : L → Bool} {f : L → Token}
    (hf : ∀ l, p l = true → wordsOk (.leaf (f l)) = true) :
    ∀ x : Doc L, allLeaves p x = true → wordsOk (mapLeaves f x) = true
  | .leaf l, hx => hf l hx
  | .arr xs, hx => by
      rw [mapLeaves, wordsOk]
      exact wordsOkList_mapLeavesList hf xs hx
  | .obj fs, hx => by
      rw [mapLeaves, wordsOk]
      exact wordsOkFields_mapLeavesFields hf fs hx

theorem wordsOkList_mapLeavesList {p : L → Bool} {f : L → Token}
    (hf : ∀ l, p l = true → wordsOk (.leaf (f l)) = true) :
    ∀ xs : List (Doc L), allLeavesList p xs = true → wordsOkList (mapLeavesList f xs) = true
  | [], _ => rfl
  | x :: xs, hx => by
      simp only [allLeavesList, Bool.and_eq_true] at hx
      simp [mapLeavesList, wordsOkList, wordsOk_mapLeaves hf x hx.1,
        wordsOkList_mapLeavesList hf xs hx.2]

theorem wordsOkFields_mapLeavesFields {p : L → Bool} {f : L → Token}
    (hf : ∀ l, p l = true → wordsOk (.leaf (f l)) = true) :
    ∀ fs : List (String × Doc L), allLeavesFields p fs = true →
      wordsOkFields (mapLeavesFields f fs) = true
  | [], _ => rfl
  | (k, x) :: fs, hx => by
      simp only [allLeavesFields, Bool.and_eq_true] at hx
      simp [mapLeavesFields, wordsOkFields, wordsOk_mapLeaves hf x hx.1,
        wordsOkFields_mapLeavesFields hf fs hx.2]

end

theorem keys_mapLeavesFields (f : L → M) :
    ∀ fs : List (String × Doc L), Dict.keys (mapLeavesFields f fs) = Dict.keys fs
  | [] => rfl
  | (k, _) :: fs => congrArg (k :: ·) (keys_mapLeavesFields f fs)

mutual

theorem keysDistinct_mapLeaves (f : L → M) :
    ∀ x : Doc L, keysDistinct x → keysDistinct (mapLeaves f x)
  | .leaf _, _ => trivial
  | .arr xs, h => keysDistinctList_mapLeavesList f xs h
  | .obj fs, h => by
      refine ⟨?_, keysDistinctFields_mapLeavesFields f fs h.2⟩
      rw [keys_mapLeavesFields]
      exact h.1

theorem keysDistinctList_mapLeavesList (f : L → M) :
    ∀ xs : List (Doc L), keysDistinctList xs → keysDistinctList (mapLeavesList f xs)
  | [], _ => trivial
  | x :: xs, h => ⟨keysDistinct_mapLeaves f x h.1, keysDistinctList_mapLeavesList f xs h.2⟩

theorem keysDistinctFields_mapLeavesFields (f : L → M) :
    ∀ fs : List (String × Doc L), keysDistinctFields fs →
      keysDistinctFields (mapLeavesFields f fs)
  | [], _ => trivial
  | (_, x) :: fs, h => ⟨keysDistinct_mapLeaves f x h.1, keysDistinctFields_mapLeavesFields f fs h.2⟩

end

end Leaves

/-- A text that was written is read as the document it was written from. -/
theorem loads?_dumps (e : Escaping) {x : Doc Token} (hx : wordsOk x = true)
    (hkeys : keysDistinct x) : loads? (dumps e x) = some x := by
  rw [loads?, scan?_dumps e hx, Option.map_some, asDicts_of_distinct x hkeys]

end JsonText
