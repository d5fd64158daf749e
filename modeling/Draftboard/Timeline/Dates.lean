import Draftboard.Timeline.Drag
import Draftboard.Changeset.Basic
/-!
# Dates of a drag

The dates that a drag gives a work package, from its pristine dates and the distance moved.
-/

namespace Draftboard.Timeline

/-- Dates to write; `none` leaves an attribute as it is. -/
structure DateValues where
  start : Option Date := none
  due : Option Date := none
deriving DecidableEq, Inhabited

/-- Dates of a drag by some days. A handle stops at the other end of the bar. -/
def movedDates (pristine : Snapshot) (day : Date) (days : Int) : Direction → DateValues :=
  let start := (pristine.value Attribute.startDate).asDate?
  let due := (pristine.value Attribute.dueDate).asDate?
  fun
  | .left =>
    let moved := start.map (·.shift days)
    { start := match moved, due with
        | some s, some d => some (min s d)
        | _, _ => moved }
  | .right =>
    let moved := due.map (·.shift days)
    { due := match start, moved with
        | some s, some d => some (max d s)
        | _, _ => moved }
  | .both => { start := start.map (·.shift days), due := due.map (·.shift days) }
  | .create => { start := some day, due := some day }
  | .dragRight =>
    let pressed := day.shift (saturate (-days))
    { start := some (min pressed day), due := some (max pressed day) }

def DateValues.edits (dates : DateValues) : List (String × AttrValue) :=
  (dates.start.map fun d => (Attribute.startDate, AttrValue.date d)).toList ++
    (dates.due.map fun d => (Attribute.dueDate, AttrValue.date d)).toList

/-- Who decides the dates of a drag. -/
inductive Renderer where
  | standard
  | fixed (dates : DateValues)
deriving DecidableEq, Inhabited

def Renderer.dates (r : Renderer) (pristine : Snapshot) (day : Date) (days : Int)
    (direction : Direction) : DateValues :=
  match r with
  | standard => movedDates pristine day days direction
  | fixed dates => dates

end Draftboard.Timeline
