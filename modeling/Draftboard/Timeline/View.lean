import Draftboard.Package.Codec
import Draftboard.Decimal.Shortest
/-!
# Timeline view

How pixels of the timeline map to days.
-/

namespace Draftboard.Timeline

structure View where
  pixelsPerDay : Float
  /-- The date at offset zero. -/
  start : Date
  /-- While relations are being selected, parents can be picked up too. -/
  selecting : Bool := false

structure InvalidScale where
  scale : Float

def InvalidScale.message (e : InvalidScale) : String :=
  "pixels per day must be a positive finite number, got " ++ Decimal.text e.scale

def isValidScale (scale : Float) : Bool := scale.isFinite && scale > 0.0

/-- A place on the timeline: the days from offset zero, and the date there. -/
structure Cell where
  day : Int
  date : Date
deriving DecidableEq

/-- The place some days after a date; past the bounds of dates it shows the date itself. -/
def Cell.at (start : Date) (day : Int) : Cell := { day, date := start.shift day }

namespace View

def ofScale (scale : Float) (start : Date) (selecting : Bool) : Except InvalidScale View :=
  if isValidScale scale then .ok { pixelsPerDay := scale, start, selecting }
  else .error { scale }

/-- Whole days from offset zero to `x` pixels, at most what 64 bits hold; zero for an `x` that is
no number or a scale that is not valid. -/
def dayOffset (v : View) (x : Float) : Int :=
  if isValidScale v.pixelsPerDay then (x / v.pixelsPerDay).floor.toInt64.toInt else 0

def cellAt (v : View) (x : Float) : Cell := Cell.at v.start (v.dayOffset x)

def toJson (v : View) : Json :=
  .obj [("pixelsPerDay", v.pixelsPerDay), ("dateDisplayStart", v.start),
    ("activeSelectionMode", v.selecting)]

def ofJson? (j : Json) : Option View := do
  let [pixelsPerDay, start, selecting] ← j.record?
    ["pixelsPerDay", "dateDisplayStart", "activeSelectionMode"] | none
  let pixelsPerDay ← Json.required pixelsPerDay
  let start ← Json.required start
  let selecting ← Json.defaulted false selecting
  some { pixelsPerDay, start, selecting }

instance : ToJson View := ⟨toJson⟩
instance : FromJson View := ⟨ofJson?⟩

end View

end Draftboard.Timeline
