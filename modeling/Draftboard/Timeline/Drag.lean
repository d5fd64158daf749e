import Draftboard.Timeline.View
/-!
# Timeline drags

The pointer gesture on one row of a timeline, as a state machine. It knows nothing of work
packages but whether the row is a leaf; what shall happen to the dates it says in intents.
-/

namespace Draftboard.Timeline

/-! ## Directions -/

inductive Direction where
  /-- The left handle: the start date. -/
  | left
  /-- The right handle: the due date. -/
  | right
  /-- The whole bar: both dates. -/
  | both
  /-- A click on an empty cell: both dates on that day. -/
  | create
  /-- A drag on an empty cell: one date on the pressed day, one under the cursor. -/
  | dragRight
deriving DecidableEq, Inhabited

namespace Direction

def all : List Direction := [left, right, both, create, dragRight]

def name : Direction → String
  | left => "left"
  | right => "right"
  | both => "both"
  | create => "create"
  | dragRight => "dragright"

def toJson (d : Direction) : Json := d.name

def ofJson? (j : Json) : Option Direction :=
  j.choice?.bind fun name => all.find? (·.name = name)

instance : ToJson Direction := ⟨toJson⟩
instance : FromJson Direction := ⟨ofJson?⟩

/-- Directions that start on an empty cell. -/
def createsDates : Direction → Bool
  | create | dragRight => true
  | left | right | both => false

end Direction

/-! ## Days within 64 bits -/

/-- The nearest number that fits 64 bits. -/
def saturate (n : Int) : Int := max Int64.minValue.toInt (min Int64.maxValue.toInt n)

theorem saturate_of_fits {n : Int} (low : Int64.minValue.toInt ≤ n)
    (high : n ≤ Int64.maxValue.toInt) : saturate n = n := by
  unfold saturate
  omega

/-! ## The state machine -/

inductive DragState where
  | idle
  | armed (direction : Direction) (startDay : Int)
  | dragging (direction : Direction) (startDay days : Int)
  | committing
  | cancelled
deriving DecidableEq, Inhabited

inductive Intent where
  /-- Show the bar moved by some days from where the drag started. -/
  | preview (direction : Direction) (days : Int) (day : Date)
  | commit
  | cancel
deriving DecidableEq

namespace DragState

/-- The press that a drag goes back to, while the pointer is down. -/
def press? : DragState → Option (Direction × Int)
  | armed direction startDay | dragging direction startDay _ => some (direction, startDay)
  | idle | committing | cancelled => none

def isActive (s : DragState) : Bool := s.press?.isSome

/-- Parents move in selection mode only, and dates are made on leaves only. -/
def allows (selecting isLeaf : Bool) (direction : Direction) : Bool :=
  isLeaf || (selecting && !direction.createsDates)

def pointerDown (selecting isLeaf : Bool) (direction : Direction) (cell : Cell) (s : DragState) :
    DragState × List Intent :=
  if s = idle ∧ allows selecting isLeaf direction then
    match direction with
    | .create => (committing, [.preview direction 0 cell.date, .commit])
    | .dragRight => (armed direction cell.day, [.preview direction 0 cell.date])
    | .left | .right | .both => (armed direction cell.day, [])
  else (s, [])

def pointerMove (cell : Cell) (s : DragState) : DragState × Option Intent :=
  match s.press? with
  | some (direction, startDay) =>
    let days := saturate (cell.day - startDay)
    (dragging direction startDay days, some (.preview direction days cell.date))
  | none => (s, none)

def pointerUp (s : DragState) : DragState × Option Intent :=
  if s.isActive then (committing, some .commit) else (s, none)

def escape (s : DragState) : DragState × Option Intent :=
  if s.isActive then (cancelled, some .cancel) else (s, none)

/-- Leaving the cell ends only drags that started on an empty one. -/
def pointerLeave (s : DragState) : DragState × Option Intent :=
  match s.press? with
  | some (direction, _) => if direction.createsDates then (cancelled, some .cancel) else (s, none)
  | none => (s, none)

def finish (_ : DragState) : DragState := idle

/-! ## Small facts -/

end DragState

end Draftboard.Timeline
