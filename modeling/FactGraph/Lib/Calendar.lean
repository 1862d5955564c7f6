import Mathlib.Data.List.Basic
import Mathlib.Data.Nat.Digits.Defs
import Mathlib.Order.Basic

/-!
# Calendar dates and their ISO texts

Dates of the proleptic Gregorian calendar, times of day with microseconds, and the two together with
an optional offset from UTC, with the texts `isoformat` writes them as. A text of fixed width tells its
number (`padded_append_inj`), so the text of a date, or of a date with a time, tells the whole of it
(`Date.isoformat_injective`, `DateTime.isoformat_injective`).
-/

namespace Calendar

/-! ## Texts of fixed width -/

/-- The last `k` decimal digits of a number. -/
def padded : Nat → Nat → List Char
  | 0, _ => []
  | k + 1, n => padded k (n / 10) ++ [Nat.digitChar (n % 10)]

@[simp] theorem length_padded (k n : Nat) : (padded k n).length = k := by
  induction k generalizing n with
  | zero => rfl
  | succ k ih => simp [padded, ih]

theorem digitChar_inj {m n : Nat} (hm : m < 10) (hn : n < 10)
    (h : Nat.digitChar m = Nat.digitChar n) : m = n := by
  have hall : ∀ m : Fin 10, ∀ n : Fin 10, Nat.digitChar m = Nat.digitChar n → m = n := by decide
  exact congrArg Fin.val (hall ⟨m, hm⟩ ⟨n, hn⟩ h)

theorem padded_inj {k m n : Nat} (hm : m < 10 ^ k) (hn : n < 10 ^ k)
    (h : padded k m = padded k n) : m = n := by
  induction k generalizing m n with
  | zero =>
    rw [Nat.pow_zero, Nat.lt_one_iff] at hm hn
    rw [hm, hn]
  | succ k ih =>
    rw [Nat.pow_succ] at hm hn
    obtain ⟨hhigh, hlow⟩ := List.append_inj h (by simp)
    have hdigit : m % 10 = n % 10 :=
      digitChar_inj (Nat.mod_lt _ (by omega)) (Nat.mod_lt _ (by omega)) (List.cons.inj hlow).1
    have hrest : m / 10 = n / 10 := ih (by omega) (by omega) hhigh
    omega

/-- A number of fixed width is told, whatever follows it. -/
theorem padded_append_inj {k m n : Nat} {r s : List Char} (hm : m < 10 ^ k) (hn : n < 10 ^ k)
    (h : padded k m ++ r = padded k n ++ s) : m = n ∧ r = s := by
  obtain ⟨hnum, hrest⟩ := List.append_inj h (by simp)
  exact ⟨padded_inj hm hn hnum, hrest⟩

/-- Microseconds behind a point, if there are any. -/
def fraction (us : Nat) : List Char := if us = 0 then [] else '.' :: padded 6 us

theorem fraction_append_inj {m n : Nat} {r s : List Char} (hm : m < 10 ^ 6) (hn : n < 10 ^ 6)
    (hr : r.head? ≠ some '.') (hs : s.head? ≠ some '.')
    (h : fraction m ++ r = fraction n ++ s) : m = n ∧ r = s := by
  unfold fraction at h
  split at h
  · split at h
    · exact ⟨by omega, h⟩
    · exact absurd (by rw [show r = _ from h]; rfl) hr
  · split at h
    · exact absurd (by rw [show s = _ from h.symm]; rfl) hs
    · exact padded_append_inj hm hn (List.cons.inj h).2

/-! ## Dates -/

def isLeap (year : Nat) : Bool := year % 4 = 0 && (year % 100 ≠ 0 || year % 400 = 0)

def daysInMonth (year month : Nat) : Nat :=
  if month = 2 then if isLeap year then 29 else 28
  else if month ∈ [4, 6, 9, 11] then 30 else 31

/-- `datetime.date`. -/
structure Date where
  year : Nat
  month : Nat
  day : Nat
  yearOk : 1 ≤ year ∧ year ≤ 9999
  monthOk : 1 ≤ month ∧ month ≤ 12
  dayOk : 1 ≤ day ∧ day ≤ daysInMonth year month
  deriving DecidableEq, Repr

theorem daysInMonth_le (year month : Nat) : daysInMonth year month ≤ 31 := by
  unfold daysInMonth
  repeat' split
  all_goals omega

def Date.chars (d : Date) : List Char :=
  padded 4 d.year ++ '-' :: (padded 2 d.month ++ '-' :: padded 2 d.day)

/-- `date.isoformat()`. -/
def Date.isoformat (d : Date) : String := String.ofList d.chars

theorem Date.ext_fields {d e : Date} (hyear : d.year = e.year) (hmonth : d.month = e.month)
    (hday : d.day = e.day) : d = e := by
  cases d
  cases e
  cases hyear
  cases hmonth
  cases hday
  rfl

theorem Date.chars_append_inj {d e : Date} {r s : List Char} (h : d.chars ++ r = e.chars ++ s) :
    d = e ∧ r = s := by
  have hday := daysInMonth_le d.year d.month
  have hday' := daysInMonth_le e.year e.month
  have hd := d.yearOk
  have hd' := d.monthOk
  have hd'' := d.dayOk
  have he := e.yearOk
  have he' := e.monthOk
  have he'' := e.dayOk
  simp only [Date.chars, List.append_assoc, List.cons_append] at h
  obtain ⟨hyear, h⟩ := padded_append_inj (by omega) (by omega) h
  obtain ⟨hmonth, h⟩ := padded_append_inj (by omega) (by omega) (List.cons.inj h).2
  obtain ⟨hday, h⟩ := padded_append_inj (by omega) (by omega) (List.cons.inj h).2
  exact ⟨Date.ext_fields hyear hmonth hday, h⟩

/-- The text of a date tells it. -/
theorem Date.isoformat_injective : Function.Injective Date.isoformat := by
  intro d e h
  have hchars : d.chars ++ [] = e.chars ++ [] := by
    rw [List.append_nil, List.append_nil]
    exact String.ofList_injective h
  exact (Date.chars_append_inj hchars).1

/-! ## Times -/

/-- The time of day of a `datetime.datetime`. -/
structure Time where
  hour : Nat
  minute : Nat
  second : Nat
  microsecond : Nat
  ok : hour < 24 ∧ minute < 60 ∧ second < 60 ∧ microsecond < 10 ^ 6
  deriving DecidableEq, Repr

def Time.chars (t : Time) : List Char :=
  padded 2 t.hour ++ ':' :: (padded 2 t.minute ++ ':' :: (padded 2 t.second ++ fraction t.microsecond))

theorem Time.chars_append_inj {t u : Time} {r s : List Char} (hr : r.head? ≠ some '.')
    (hs : s.head? ≠ some '.') (h : t.chars ++ r = u.chars ++ s) : t = u ∧ r = s := by
  have ht := t.ok
  have hu := u.ok
  simp only [Time.chars, List.append_assoc, List.cons_append] at h
  obtain ⟨hhour, h⟩ := padded_append_inj (by omega) (by omega) h
  obtain ⟨hminute, h⟩ := padded_append_inj (by omega) (by omega) (List.cons.inj h).2
  obtain ⟨hsecond, h⟩ := padded_append_inj (by omega) (by omega) (List.cons.inj h).2
  obtain ⟨hmicro, h⟩ := fraction_append_inj ht.2.2.2 hu.2.2.2 hr hs h
  refine ⟨?_, h⟩
  cases t
  cases u
  cases hhour
  cases hminute
  cases hsecond
  cases hmicro
  rfl

/-- The microseconds of a day. -/
def dayMicros : Nat := 86400 * 10 ^ 6

/-- An offset from UTC in microseconds: less than a day, in either direction. -/
structure Offset where
  micros : Int
  ok : micros.natAbs < dayMicros
  deriving DecidableEq, Repr

/-- The text of a distance less than a day: seconds only if there are any, or parts of one. -/
def distanceChars (n : Nat) : List Char :=
  padded 2 (n / (3600 * 10 ^ 6)) ++ ':' :: (padded 2 (n / (60 * 10 ^ 6) % 60) ++
    if n % (60 * 10 ^ 6) = 0 then []
    else ':' :: (padded 2 (n / 10 ^ 6 % 60) ++ fraction (n % 10 ^ 6)))

theorem distanceChars_inj {m n : Nat} (hm : m < dayMicros) (hn : n < dayMicros)
    (h : distanceChars m = distanceChars n) : m = n := by
  unfold dayMicros at hm hn
  unfold distanceChars at h
  obtain ⟨hhour, h⟩ := padded_append_inj (by omega) (by omega) h
  obtain ⟨hminute, h⟩ := padded_append_inj (by omega) (by omega) (List.cons.inj h).2
  split at h
  · split at h
    · omega
    · exact absurd h (by simp)
  · split at h
    · exact absurd h (by simp)
    · have hrest := (List.cons.inj h).2
      rw [← List.append_nil (fraction (m % 10 ^ 6)), ← List.append_nil (fraction (n % 10 ^ 6))] at hrest
      obtain ⟨hsecond, hrest⟩ := padded_append_inj (by omega) (by omega) hrest
      obtain ⟨hmicro, -⟩ := fraction_append_inj (Nat.mod_lt _ (by omega)) (Nat.mod_lt _ (by omega))
        (by simp) (by simp) hrest
      omega

def Offset.chars (o : Offset) : List Char :=
  (if o.micros < 0 then '-' else '+') :: distanceChars o.micros.natAbs

theorem Offset.chars_injective : Function.Injective Offset.chars := by
  intro o p h
  obtain ⟨hsign, hdistance⟩ := List.cons.inj h
  have habs := distanceChars_inj o.ok p.ok hdistance
  have hmicros : o.micros = p.micros := by
    by_cases ho : o.micros < 0
    · by_cases hp : p.micros < 0
      · omega
      · simp [ho, hp] at hsign
    · by_cases hp : p.micros < 0
      · simp [ho, hp] at hsign
      · omega
  cases o
  cases p
  cases hmicros
  rfl

def offsetChars : Option Offset → List Char
  | none => []
  | some o => o.chars

theorem offsetChars_head (o : Option Offset) : (offsetChars o).head? ≠ some '.' := by
  cases o with
  | none => simp [offsetChars]
  | some o =>
    simp only [offsetChars, Offset.chars, List.head?_cons, ne_eq, Option.some.injEq]
    split <;> decide

theorem offsetChars_injective : Function.Injective offsetChars := by
  intro o p h
  cases o with
  | none =>
    cases p with
    | none => rfl
    | some p => cases h
  | some o =>
    cases p with
    | none => cases h
    | some p => rw [Offset.chars_injective h]

/-- `datetime.datetime`, as far as it is compared: a wall clock, and its offset if it is aware. -/
structure DateTime where
  date : Date
  time : Time
  offset : Option Offset
  deriving DecidableEq, Repr

def DateTime.chars (t : DateTime) : List Char :=
  t.date.chars ++ 'T' :: (t.time.chars ++ offsetChars t.offset)

/-- `datetime.isoformat()`. -/
def DateTime.isoformat (t : DateTime) : String := String.ofList t.chars

/-- The text of a date with a time tells it. -/
theorem DateTime.isoformat_injective : Function.Injective DateTime.isoformat := by
  intro t u h
  have hchars : t.chars = u.chars := String.ofList_injective h
  obtain ⟨hdate, hrest⟩ := Date.chars_append_inj hchars
  obtain ⟨htime, hoffset⟩ := Time.chars_append_inj (offsetChars_head t.offset)
    (offsetChars_head u.offset) (List.cons.inj hrest).2
  have hoff := offsetChars_injective hoffset
  cases t
  cases u
  cases hdate
  cases htime
  cases hoff
  rfl

end Calendar
