import Draftboard.Text.Characters
/-!
# Reading decimals

Two ways from a decimal to a float. One gives the float nearest to it. The other holds the digits
in 64 bits, rounds that significand to a float, and scales it by a power of ten: each of the two
steps rounds, so the result may lie one float beside the nearest.
-/

namespace Draftboard.Decimal

/-! ## The nearest float -/

/-- The float nearest to `digits * 10 ^ scale`. Scales far outside the range of floats are cut
off first. -/
def nearest (negative : Bool) (digits : Nat) (scale : Int) : Float :=
  let size := ((Nat.toDigits 10 digits).length : Int) + scale
  let x : Float :=
    if digits = 0 ∨ size < -400 then 0.0
    else if 400 < size then 1.0 / 0.0
    else Float.ofScientific digits (decide (scale < 0)) scale.natAbs
  if negative then -x else x

/-! ## Significands of 64 bits -/

/-- Appends digits to a significand while it fits 64 bits; gives back the digits from the first
that does not fit. -/
def appendDigits : Nat → List Char → Nat × List Char
  | significand, [] => (significand, [])
  | significand, c :: rest =>
    let next := 10 * significand + digitValue c
    if next < UInt64.size then appendDigits next rest else (significand, c :: rest)

/-- A decimal `significand * 10 ^ exponent`. -/
structure Significand where
  significand : Nat
  exponent : Int
deriving DecidableEq

/-- The digits before and after a point, as far as 64 bits hold them. A digit before the point
that is left out counts as a zero, and one after it not at all. -/
def Significand.ofDigits (whole fraction : List Char) : Significand :=
  let (held, out) := appendDigits 0 whole
  let (significand, unread) := appendDigits held fraction
  { significand, exponent := out.length - (fraction.length - unread.length) }

def powerOfTen (n : Nat) : Float := Float.ofScientific 1 false n

/-- Scales a float by a power of ten, in one step where a float holds that power. Below that range
it takes several divisions; above it there is no result, except for zero. -/
def scale? (x : Float) (exponent : Int) : Option Float :=
  if 308 < exponent then if x == 0.0 then some x else none
  else if 0 ≤ exponent then
    let scaled := x * powerOfTen exponent.toNat
    if scaled.isInf then none else some scaled
  else if -308 ≤ exponent then some (x / powerOfTen (-exponent).toNat)
  else if x == 0.0 then some x
  else scale? (x / powerOfTen 308) (exponent + 308)
termination_by (-exponent).toNat
decreasing_by omega

/-- The float of a decimal, by its significand; `none` when it is past the range of floats. -/
def scaled? (negative : Bool) (whole fraction : List Char) (exponent : Int) : Option Float :=
  let d := Significand.ofDigits whole fraction
  (scale? d.significand.toUInt64.toFloat (d.exponent + exponent)).map fun x =>
    if negative then -x else x

/-! ## Small facts -/

end Draftboard.Decimal
