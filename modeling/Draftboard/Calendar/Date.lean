import Draftboard.Text.Characters
/-!
# Dates

Days of the proleptic Gregorian calendar within fixed bounds, their text, and moving a date by a
number of days.
-/

namespace Draftboard

/-! ## Day numbers -/

namespace Calendar

structure Civil where
  year : Int
  month : Nat
  day : Nat
deriving DecidableEq

def isLeap (year : Int) : Bool := year % 4 = 0 ∧ (year % 100 ≠ 0 ∨ year % 400 = 0)

def daysInMonth (year : Int) (month : Nat) : Nat :=
  if month = 2 then (if isLeap year then 29 else 28)
  else if month = 4 ∨ month = 6 ∨ month = 9 ∨ month = 11 then 30
  else 31

def Civil.isValid (c : Civil) : Bool :=
  1 ≤ c.month ∧ c.month ≤ 12 ∧ 1 ≤ c.day ∧ c.day ≤ daysInMonth c.year c.month

/-- Days since 1970-01-01. Years are counted from March, so that a leap day comes last. -/
def Civil.dayNumber (c : Civil) : Int :=
  let year := if c.month ≤ 2 then c.year - 1 else c.year
  let era := year / 400
  let yearOfEra := year % 400
  let dayOfYear : Int := (153 * ((c.month + 9) % 12) + 2) / 5 + c.day - 1
  era * 146097 + (yearOfEra * 365 + yearOfEra / 4 - yearOfEra / 100 + dayOfYear) - 719468

def Civil.ofDayNumber (number : Int) : Civil :=
  let shifted := number + 719468
  let era := shifted / 146097
  let dayOfEra := shifted % 146097
  let yearOfEra := (dayOfEra - dayOfEra / 1460 + dayOfEra / 36524 - dayOfEra / 146096) / 365
  let dayOfYear := dayOfEra - (365 * yearOfEra + yearOfEra / 4 - yearOfEra / 100)
  let monthFromMarch := (5 * dayOfYear + 2) / 153
  let day := dayOfYear - (153 * monthFromMarch + 2) / 5 + 1
  let month := if monthFromMarch < 10 then monthFromMarch + 3 else monthFromMarch - 9
  { year := yearOfEra + era * 400 + (if month ≤ 2 then 1 else 0), month := month.toNat, day := day.toNat }

/-- Four digits, and a sign outside the years 0 to 9999. -/
def yearText (year : Int) : String :=
  if 0 ≤ year ∧ year ≤ 9999 then Decimal.padded 4 year.toNat
  else (if year < 0 then "-" else "+") ++ Decimal.padded 4 year.natAbs

def dayText (number : Int) : String :=
  let c := Civil.ofDayNumber number
  yearText c.year ++ "-" ++ Decimal.padded 2 c.month ++ "-" ++ Decimal.padded 2 c.day

/-! ## Reading -/

/-- A number of one digit up to `width` digits, after blanks. -/
def field (width : Nat) (cs : List Char) : Option (Nat × List Char) :=
  let cs := Text.trimStart cs
  let digits := (cs.take width).takeWhile Decimal.isDigit
  if digits = [] then none else some (Decimal.valueOf digits, cs.drop digits.length)

/-- A year: up to four digits, or any number of them after a sign. -/
def yearField (cs : List Char) : Option (Int × List Char) :=
  match Text.trimStart cs with
  | '-' :: rest => (field rest.length (dropNone rest)).map fun (n, rest) => (-(n : Int), rest)
  | '+' :: rest => (field rest.length (dropNone rest)).map fun (n, rest) => ((n : Int), rest)
  | cs => (field 4 cs).map fun (n, rest) => ((n : Int), rest)
where
  /-- No blank may follow a sign. -/
  dropNone (rest : List Char) : List Char :=
    if rest.head?.any Text.isBlankChar then [] else rest

def mark (c : Char) (cs : List Char) : Option (List Char) :=
  match Text.trimStart cs with
  | d :: rest => if d = c then some rest else none
  | [] => none

/-- A valid year, month and day at the front of a text. -/
def civilField (cs : List Char) : Option (Civil × List Char) := do
  let (year, cs) ← yearField cs
  let cs ← mark '-' cs
  let (month, cs) ← field 2 cs
  let cs ← mark '-' cs
  let (day, cs) ← field 2 cs
  let civil : Civil := { year, month, day }
  if civil.isValid then some (civil, cs) else none

/-- The day number of -262143-01-01. -/
def firstDay : Int := -96465292

/-- The day number of +262142-12-31. -/
def lastDay : Int := 95026236

end Calendar

/-! ## Dates -/

/-- A day between -262143-01-01 and +262142-12-31, counted from 1970-01-01. -/
structure Date where
  day : Int
  firstDay_le : Calendar.firstDay ≤ day := by decide
  le_lastDay : day ≤ Calendar.lastDay := by decide
deriving DecidableEq

namespace Date

instance : LE Date := ⟨fun a b => a.day ≤ b.day⟩
instance : DecidableLE Date := fun a b => inferInstanceAs (Decidable (a.day ≤ b.day))
instance : Min Date := ⟨fun a b => if a ≤ b then a else b⟩
instance : Max Date := ⟨fun a b => if a ≤ b then b else a⟩

def epoch : Date := { day := 0 }

instance : Inhabited Date := ⟨epoch⟩

def ofDay? (day : Int) : Option Date :=
  if h : Calendar.firstDay ≤ day ∧ day ≤ Calendar.lastDay then
    some { day, firstDay_le := h.1, le_lastDay := h.2 }
  else none

/-- The date moved by some days, or unchanged when that leaves the bounds. -/
def shift (date : Date) (days : Int) : Date := (ofDay? (date.day + days)).getD date

def text (date : Date) : String := Calendar.dayText date.day

/-- Reads year, month and day with dashes between; blanks may stand around each of them. -/
def read? (s : String) : Option Date := do
  let (civil, rest) ← Calendar.civilField s.toList
  if Text.trimStart rest = [] then ofDay? civil.dayNumber else none

/-! ## Small facts -/

theorem ext {a b : Date} (h : a.day = b.day) : a = b := by
  cases a; cases b; simp_all

theorem ofDay?_day (date : Date) : ofDay? date.day = some date := by
  simp [ofDay?, date.firstDay_le, date.le_lastDay]

theorem shift_zero (date : Date) : date.shift 0 = date := by
  simp [shift, ofDay?_day]

theorem day_shift (date : Date) (days : Int) :
    (date.shift days).day =
      if Calendar.firstDay ≤ date.day + days ∧ date.day + days ≤ Calendar.lastDay then
        date.day + days
      else date.day := by
  simp only [shift, ofDay?]
  split <;> simp

end Date

end Draftboard
