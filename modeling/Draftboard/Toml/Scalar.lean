import Draftboard.Calendar.Instant
import Draftboard.Toml.Text
/-!
# Plain values of TOML

Booleans, numbers, and dates and times, as JSON. A date or a time is an object that holds its text.
-/

namespace Draftboard.Toml

open Json (Step hexValue)

/-! ## Numbers -/

/-- Digits with single underscores between them. -/
def digits? (isDigit : Char → Bool) : List Char → Option (List Char)
  | [] => none
  | [c] => if isDigit c then some [c] else none
  | c :: '_' :: rest => if isDigit c then (digits? isDigit rest).map (c :: ·) else none
  | c :: rest => if isDigit c then (digits? isDigit rest).map (c :: ·) else none

/-- A whole number in base ten, without zeros in front. -/
def wholeDigits? (cs : List Char) : Option (List Char) :=
  match cs with
  | '0' :: _ :: _ => none
  | _ => digits? Decimal.isDigit cs

def fits64 (n : Int) : Option Json :=
  if Int64.minValue.toInt ≤ n ∧ n ≤ Int64.maxValue.toInt then some (.int n) else none

def radixValue? (base : Nat) (cs : List Char) : Option Json := do
  let digits ← digits? (fun c => (hexValue c).any (· < base)) cs
  fits64 (digits.foldl (fun n c => base * n + (hexValue c).getD 0) 0 : Nat)

def isExponentMark (c : Char) : Bool := c == 'e' || c == 'E'

/-- The exponent that a text holds from its mark on; none of it counts as zero. -/
def exponent? : List Char → Option Int
  | [] => some 0
  | _ :: '-' :: ds => (digits? Decimal.isDigit ds).map fun ds => -(Decimal.valueOf ds : Int)
  | _ :: '+' :: ds => (digits? Decimal.isDigit ds).map fun ds => (Decimal.valueOf ds : Int)
  | _ :: ds => (digits? Decimal.isDigit ds).map fun ds => (Decimal.valueOf ds : Int)

/-- The float nearest to a decimal. One past the largest float is refused; one past the smallest is
the negative infinity. -/
def real? (negative : Bool) (digits : Nat) (scale : Int) : Option Json :=
  let x := Decimal.nearest negative digits scale
  if x.isInf ∧ 0 < x then none else some (.real x)

/-- A number after its sign: whole, or with a fraction, an exponent or both. -/
def magnitude? (negative : Bool) (cs : List Char) : Option Json := do
  let isWhole (c : Char) : Bool := Decimal.isDigit c || c == '_'
  let whole ← wholeDigits? (cs.takeWhile isWhole)
  match cs.dropWhile isWhole with
  | [] =>
    let n : Int := Decimal.valueOf whole
    fits64 (if negative then -n else n)
  | '.' :: rest =>
    let fraction ← digits? Decimal.isDigit (rest.takeWhile (!isExponentMark ·))
    let exponent ← exponent? (rest.dropWhile (!isExponentMark ·))
    real? negative (Decimal.valueOf (whole ++ fraction)) (exponent - fraction.length)
  | mark :: rest =>
    if isExponentMark mark then real? negative (Decimal.valueOf whole) (← exponent? (mark :: rest))
    else none

def signed? (negative : Bool) (cs : List Char) : Option Json :=
  if cs = ['i', 'n', 'f'] then some (.real (if negative then -1.0 / 0.0 else 1.0 / 0.0))
  else if cs = ['n', 'a', 'n'] then some (.real (0.0 / 0.0))
  else magnitude? negative cs

def plain? (cs : List Char) : Option Json :=
  if cs = ['t', 'r', 'u', 'e'] then some (.bool true)
  else if cs = ['f', 'a', 'l', 's', 'e'] then some (.bool false)
  else match cs with
    | '+' :: rest => signed? false rest
    | '-' :: rest => signed? true rest
    | '0' :: 'x' :: rest => radixValue? 16 rest
    | '0' :: 'o' :: rest => radixValue? 8 rest
    | '0' :: 'b' :: rest => radixValue? 2 rest
    | _ => signed? false cs

def isPlain (c : Char) : Bool := c.isAlphanum || c == '_' || c == '-' || c == '+' || c == '.'

/-! ## Dates and times -/

/-- A year, a month and a day with hyphens between them; gives what follows. -/
def skipDay? (cs : List Char) : Option (List Char) := do
  let (century, cs) ← Instant.twoDigits cs
  let (year, cs) ← Instant.twoDigits cs
  match cs with
  | '-' :: cs =>
    let (month, cs) ← Instant.twoDigits cs
    match cs with
    | '-' :: cs =>
      let (day, cs) ← Instant.twoDigits cs
      let civil : Calendar.Civil := { year := 100 * century + year, month, day }
      if civil.isValid then some cs else none
    | _ => none
  | _ => none

def hourMinute? (cs : List Char) : Option (List Char) := do
  let (hour, cs) ← Instant.twoDigits cs
  match cs with
  | ':' :: cs =>
    let (minute, cs) ← Instant.twoDigits cs
    if hour < 24 ∧ minute < 60 then some cs else none
  | _ => none

/-- A time of day with its seconds, which may have a fraction. -/
def skipClock? (cs : List Char) : Option (List Char) := do
  match ← hourMinute? cs with
  | ':' :: cs =>
    let (second, cs) ← Instant.twoDigits cs
    if second ≤ 60 then some (((Instant.fractionField cs).map (·.2)).getD cs) else none
  | _ => none

/-- A distance from Greenwich: `Z`, or hours and minutes after a sign. -/
def skipOffset (cs : List Char) : List Char :=
  match cs with
  | 'Z' :: rest | 'z' :: rest => rest
  | '+' :: rest | '-' :: rest => (hourMinute? rest).getD cs
  | _ => cs

/-- What follows a date, a date with a time of day, or a time of day alone. -/
def skipMoment? (cs : List Char) : Option (List Char) :=
  match skipDay? cs with
  | none => skipClock? cs
  | some rest =>
    match rest with
    | 'T' :: clock | 't' :: clock | ' ' :: clock => some (((skipClock? clock).map skipOffset).getD rest)
    | _ => some rest

/-! ## Plain values -/

/-- A boolean, a number, or a date or a time in front of the text. -/
def scalar (cs : List Char) : Option (Json × List Char) :=
  match skipMoment? cs with
  | some rest =>
    let moment := cs.take (cs.length - rest.length)
    some (.obj [("moment", .str (String.ofList moment))], rest)
  | none => (plain? (cs.takeWhile isPlain)).map fun j => (j, cs.dropWhile isPlain)

end Draftboard.Toml
