import Draftboard.Calendar.Date
/-!
# Instants

Points in time as seconds and nanoseconds since the start of 1970, and their RFC 3339 text.
-/

namespace Draftboard

/-- A point in time. Within a leap second `nanos` is 10^9 or more. -/
structure Instant where
  seconds : Int
  nanos : Nat := 0
deriving DecidableEq, Inhabited

namespace Instant

instance : LE Instant :=
  ⟨fun a b => a.seconds < b.seconds ∨ a.seconds = b.seconds ∧ a.nanos ≤ b.nanos⟩

instance : DecidableLE Instant := fun a b =>
  inferInstanceAs (Decidable (a.seconds < b.seconds ∨ a.seconds = b.seconds ∧ a.nanos ≤ b.nanos))

/-- The calendar day of an instant, in UTC. -/
def dayNumber (t : Instant) : Int := t.seconds / 86400

/-! ## Text -/

/-- A fraction of a second with three, six or nine digits, as few as tell the whole of it. -/
def fractionText (nanos : Nat) : String :=
  if nanos = 0 then ""
  else if nanos % 1000000 = 0 then "." ++ Decimal.padded 3 (nanos / 1000000)
  else if nanos % 1000 = 0 then "." ++ Decimal.padded 6 (nanos / 1000)
  else "." ++ Decimal.padded 9 nanos

def text (t : Instant) : String :=
  let second := (t.seconds % 86400).toNat
  let leap := t.nanos / 1000000000
  Calendar.dayText t.dayNumber ++ "T" ++ Decimal.padded 2 (second / 3600) ++ ":" ++
    Decimal.padded 2 (second / 60 % 60) ++ ":" ++ Decimal.padded 2 (second % 60 + leap) ++
    fractionText (t.nanos % 1000000000) ++ "Z"

/-! ## Reading -/

/-- Nanoseconds after a point; digits past the ninth are passed over. -/
def fractionField (cs : List Char) : Option (Nat × List Char) :=
  match cs with
  | '.' :: rest =>
    let (digits, rest) := Decimal.spanDigits rest
    let kept := digits.take 9
    if digits = [] then none
    else some (Decimal.valueOf kept * Nat.pow 10 (9 - kept.length), rest)
  | _ => some (0, cs)

def twoDigits : List Char → Option (Nat × List Char)
  | a :: b :: rest =>
    if Decimal.isDigit a ∧ Decimal.isDigit b then some (Decimal.valueOf [a, b], rest) else none
  | _ => none

/-- Seconds east of Greenwich: `Z`, `UTC`, or hours and minutes after a sign. -/
def offsetField (cs : List Char) : Option (Int × List Char) :=
  let hoursMinutes (sign : Int) (rest : List Char) : Option (Int × List Char) := do
    let (hours, rest) ← twoDigits rest
    let rest := rest.dropWhile fun c => c = ':' ∨ Text.isBlankChar c
    let (minutes, rest) ← twoDigits rest
    let seconds := 3600 * hours + 60 * minutes
    if minutes < 60 ∧ seconds < 86400 then some (sign * seconds, rest) else none
  match Text.trimStart cs with
  | 'Z' :: rest | 'z' :: rest => some (0, rest)
  | '+' :: rest => hoursMinutes 1 rest
  | '-' :: rest | '−' :: rest => hoursMinutes (-1) rest
  | a :: b :: c :: rest =>
    if [a.toLower, b.toLower, c.toLower] = ['u', 't', 'c'] then some (0, rest) else none
  | _ => none

/-- Hours, minutes and seconds of a day, with the nanoseconds that a leap second adds. -/
def clockField (cs : List Char) : Option ((Nat × Nat) × List Char) := do
  let (hour, cs) ← Calendar.field 2 cs
  let cs ← Calendar.mark ':' cs
  let (minute, cs) ← Calendar.field 2 cs
  let cs ← Calendar.mark ':' cs
  let (second, cs) ← Calendar.field 2 cs
  if hour < 24 ∧ minute < 60 ∧ second ≤ 60 then
    let leap := second / 60
    some ((3600 * hour + 60 * minute + (second - leap), 1000000000 * leap), cs)
  else none

/-- Reads an RFC 3339 time stamp and turns it into UTC. -/
def read? (s : String) : Option Instant := do
  let (civil, cs) ← Calendar.civilField s.toList
  let cs ← match cs with
    | 'T' :: rest | 't' :: rest | ' ' :: rest => some rest
    | _ => none
  let ((second, leap), cs) ← clockField cs
  let (nanos, cs) ← fractionField cs
  let (offset, cs) ← offsetField cs
  let t : Instant := { seconds := civil.dayNumber * 86400 + second - offset, nanos := nanos + leap }
  if Text.trimStart cs = [] ∧ Calendar.firstDay ≤ civil.dayNumber ∧
      civil.dayNumber ≤ Calendar.lastDay ∧ (Date.ofDay? t.dayNumber).isSome then
    some t
  else none

end Instant

/-! ## Clock -/

/-- A clock that shows a later time at each reading. -/
structure Clock where
  now : Instant
deriving DecidableEq, Inhabited

namespace Clock

def read (c : Clock) : Instant × Clock :=
  (c.now, { now :=
    if c.now.nanos + 1 < 1000000000 then { c.now with nanos := c.now.nanos + 1 }
    else { seconds := c.now.seconds + 1 } })

theorem now_le_read (c : Clock) : c.now ≤ c.read.2.now ∧ ¬ c.read.2.now ≤ c.now := by
  simp only [read, LE.le]
  split
  · simp
  · simp only
    omega

end Clock

end Draftboard
