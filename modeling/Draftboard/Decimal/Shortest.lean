import Draftboard.Text.Characters
/-!
# Shortest decimal text of a float

The decimal with the fewest digits that reads back as the same number, and two ways to lay
its digits out.
-/

namespace Draftboard.Decimal

/-- What the 64 bits of a float stand for: `mantissa * 2 ^ exponent` when finite. -/
inductive FloatParts where
  | nan
  | infinite (negative : Bool)
  | finite (negative : Bool) (mantissa : Nat) (exponent : Int)
deriving DecidableEq

def partsOfBits (bits : Nat) : FloatParts :=
  let negative := bits / Nat.pow 2 63 % 2 == 1
  let biased : Nat := bits / Nat.pow 2 52 % Nat.pow 2 11
  let fraction : Nat := bits % Nat.pow 2 52
  if biased = 2047 then
    if fraction = 0 then .infinite negative else .nan
  else if biased = 0 then .finite negative fraction (-1074)
  else .finite negative (Nat.pow 2 52 + fraction) ((biased : Int) - 1075)

/-- A decimal `digits * 10 ^ scale`. -/
structure Scaled where
  digits : Nat
  scale : Int
deriving DecidableEq

/-- The value and the ends of its rounding interval, as multiples of one unit over `unit`. -/
structure Interval where
  low : Nat
  value : Nat
  high : Nat
  unit : Nat
  closed : Bool

/-- The reals that round to `m * 2 ^ q`, measured on the decimal grid `10 ^ scale`. -/
def Interval.onGrid (m : Nat) (q scale : Int) : Interval :=
  let top := Nat.pow 2 (q - 2).toNat * Nat.pow 10 (-scale).toNat
  let below := if m = Nat.pow 2 52 ∧ q ≠ -1074 then 1 else 2
  { low := (4 * m - below) * top
    value := 4 * m * top
    high := (4 * m + 2) * top
    unit := Nat.pow 2 (2 - q).toNat * Nat.pow 10 scale.toNat
    closed := m % 2 == 0 }

def Interval.holds (i : Interval) (point : Nat) : Bool :=
  let reached := point * i.unit
  if i.closed then i.low ≤ reached && reached ≤ i.high else i.low < reached && reached < i.high

/-- Which of two decimals equally near to a value is taken. -/
inductive Tie where
  | up
  | toEven
deriving DecidableEq

def Tie.pick : Tie → Nat → Nat
  | up, c => c + 1
  | toEven, c => if c % 2 = 0 then c else c + 1

/-- The grid point nearest to the value among its two neighbours that round back to it. -/
def Interval.pick? (tie : Tie) (i : Interval) : Option Nat :=
  let c := i.value / i.unit
  match i.holds c, i.holds (c + 1) with
  | false, false => none
  | true, false => some c
  | false, true => some (c + 1)
  | true, true =>
    some (match compare (i.value - c * i.unit) ((c + 1) * i.unit - i.value) with
      | .lt => c
      | .gt => c + 1
      | .eq => tie.pick c)

/-- The exponent of the first decimal digit of `m * 2 ^ q`, for `m > 0`. -/
def leadingExponent (m : Nat) (q : Int) : Int :=
  let whole := m * Nat.pow 2 q.toNat * Nat.pow 10 330 / Nat.pow 2 (-q).toNat
  ((Nat.toDigits 10 whole).length : Int) - 331

/-- Takes zeros off the end of the digits, at most `fuel` of them. -/
def Scaled.trimZeros : Nat → Scaled → Scaled
  | 0, d => d
  | fuel + 1, d =>
    if d.digits ≠ 0 ∧ d.digits % 10 = 0 then
      Scaled.trimZeros fuel { digits := d.digits / 10, scale := d.scale + 1 }
    else d

/-- The shortest decimal that rounds to `m * 2 ^ q`; seventeen digits always do. -/
def shortest (tie : Tie) (m : Nat) (q : Int) : Scaled :=
  if m = 0 then { digits := 0, scale := 0 }
  else
    let lead := leadingExponent m q
    let hit := (List.range 17).findSome? fun (n : Nat) =>
      let scale := lead - (n : Int)
      ((Interval.onGrid m q scale).pick? tie).map fun digits => ({ digits, scale } : Scaled)
    (hit.getD { digits := m, scale := 0 }).trimZeros 20

/-! ## Layouts -/

/-- Digits without an exponent, and without a point when the number is whole. -/
def Scaled.positional (d : Scaled) : String :=
  let ds := (toString d.digits).toList
  if d.digits = 0 then "0"
  else if 0 ≤ d.scale then String.ofList (ds ++ List.replicate d.scale.toNat '0')
  else
    let places := (-d.scale).toNat
    if places < ds.length then
      String.ofList (ds.take (ds.length - places) ++ '.' :: ds.drop (ds.length - places))
    else
      String.ofList ('0' :: '.' :: List.replicate (places - ds.length) '0' ++ ds)

/-- Positional from `1e-5` up to sixteen places before the point, with `.0` on a whole number;
else one digit before the point and an exponent. -/
def Scaled.compact (d : Scaled) : String :=
  let ds := (toString d.digits).toList
  let before := (ds.length : Int) + d.scale
  if d.digits = 0 then "0.0"
  else if 0 ≤ d.scale ∧ before ≤ 16 then d.positional ++ ".0"
  else if -5 < before ∧ before ≤ 16 then d.positional
  else
    let tail := ds.drop 1
    String.ofList (ds.take 1 ++ (if tail = [] then [] else '.' :: tail)) ++ "e" ++ toString (before - 1)

private def signed (negative : Bool) (s : String) : String := if negative then "-" ++ s else s

/-- Plain text of a float: `0`, `-0`, `12.5`, `NaN`, `inf`. Of two shortest decimals equally near
it is the one further from zero. -/
def text (x : Float) : String :=
  match partsOfBits x.toBits.toNat with
  | .nan => "NaN"
  | .infinite negative => signed negative "inf"
  | .finite negative m q => signed negative (shortest .up m q).positional

/-- JSON text of a float, with the even one of two shortest decimals equally near; JSON has no text
for the others, so they are `null`. -/
def jsonText (x : Float) : String :=
  match partsOfBits x.toBits.toNat with
  | .nan | .infinite _ => "null"
  | .finite negative m q => signed negative (shortest .toEven m q).compact

end Draftboard.Decimal
