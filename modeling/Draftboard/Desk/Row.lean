import Draftboard.Desk.Save
import Draftboard.Timeline.Dates
/-!
# Timeline rows

One row of a timeline, with its drag bound to the desk. A preview writes dates into the change-set;
a commit saves and refreshes the rows on display; a cancel, or a commit with nothing changed,
drops the edits without a request.
-/

namespace Draftboard

open Timeline

inductive Outcome where
  | saved (commit : Commit)
  /-- No date was changed, and nothing was sent. -/
  | noChange
  | cancelled
  /-- The save failed, and the user has been told. -/
  | failed
deriving DecidableEq

structure Row where
  view : View
  drag : DragState := .idle
  workPackage : Snapshot
  /-- The change-set that the drag edits; it is registered once a drag starts. -/
  handle : Handle
  /-- The work packages on display, which are refreshed after a save. -/
  rendered : List PackageId := []
  renderer : Renderer := .standard
  publishesEvents : Bool := false
  notifiesSuccess : Bool := true

/-- The desk and the row after an event, with the outcome if the event ended a drag. -/
abbrev RowStep := Desk × Row × Option Outcome

namespace Row

/-! ## Making and showing a row -/

/-- A row of a work package, with a change-set of its own that is registered nowhere. -/
def make (d : Desk) (view : View) (workPackage : Snapshot) (rendered : List PackageId) : Desk × Row :=
  let (d, handle) := d.newDraft { changeset := { pristine := workPackage }, reported := false }
  (d, { view, workPackage, handle, rendered })

def displayed (r : Row) (d : Desk) : Snapshot := (d.merged? r.workPackage.id).getD r.workPackage

def refreshed (r : Row) (d : Desk) : Row :=
  { r with workPackage := (d.cache.get? r.workPackage.id).getD r.workPackage }

/-! ## Intents -/

def preview (r : Row) (d : Desk) (direction : Direction) (days : Int) (day : Date) : Desk :=
  let dates := r.renderer.dates (d.changeset r.handle).pristine day days direction
  d.setValues r.handle dates.edits

/-- Refreshes the rows on display that changed since an instant. -/
def refreshRendered (r : Row) (d : Desk) (commit : Commit) (since : Instant) : Desk :=
  match d.request (·.updatedSince r.rendered since) with
  | (d, .ok updated) =>
    let d := d.putPackages updated
    if r.publishesEvents then d.publishEvent (.updated commit.id) else d
  | (d, .error error) => d.notify (.ofError (.api error) r.workPackage.id)

def save (r : Row) (d : Desk) : Desk × Outcome :=
  let (d, since) := d.readClock
  match d.save r.handle with
  | (d, .error error) => (d.notify (.ofError error r.workPackage.id), .failed)
  | (d, .ok commit) =>
    let d := if r.notifiesSuccess then d.notify (.saved commit.id) else d
    (r.refreshRendered d commit since, .saved commit)

def deactivate (r : Row) (d : Desk) (cancelled : Bool) : RowStep :=
  let (d, outcome) :=
    if cancelled then (d, Outcome.cancelled)
    else if (d.changeset r.handle).isEmpty then (d, Outcome.noChange)
    else r.save d
  let d := d.reset r.handle
  (d, { r.refreshed d with drag := r.drag.finish }, some outcome)

def apply (r : Row) (d : Desk) : Intent → RowStep
  | .preview direction days day => (r.preview d direction days day, r, none)
  | .commit => r.deactivate d false
  | .cancel => r.deactivate d true

/-- Applies intents in order; the outcome is that of the last. -/
def applyAll (r : Row) (d : Desk) (intents : List Intent) : RowStep :=
  intents.foldl (fun (d, r, _) intent => apply r d intent) (d, r, none)

/-! ## Events -/

def pressCell (r : Row) (d : Desk) (direction : Direction) (cell : Cell) : RowStep :=
  let r := r.refreshed d
  let (drag, intents) := r.drag.pointerDown r.view.selecting r.workPackage.isLeaf direction cell
  let r := { r with drag }
  if drag = .idle then r.applyAll d intents
  else
    let (d, handle) := d.changeFor r.workPackage none
    { r with handle }.applyAll d intents

def moveToCell (r : Row) (d : Desk) (cell : Cell) : RowStep :=
  let (drag, intent) := r.drag.pointerMove cell
  { r with drag }.applyAll d intent.toList

def pointerDown (r : Row) (d : Desk) (direction : Direction) (x : Float) : RowStep :=
  r.pressCell d direction (r.view.cellAt x)

def pointerMove (r : Row) (d : Desk) (x : Float) : RowStep := r.moveToCell d (r.view.cellAt x)

def pointerUp (r : Row) (d : Desk) : RowStep :=
  let (drag, intent) := r.drag.pointerUp
  { r with drag }.applyAll d intent.toList

def escape (r : Row) (d : Desk) : RowStep :=
  let (drag, intent) := r.drag.escape
  { r with drag }.applyAll d intent.toList

def pointerLeave (r : Row) (d : Desk) : RowStep :=
  let (drag, intent) := r.drag.pointerLeave
  { r with drag }.applyAll d intent.toList

end Row

end Draftboard
