import Draftboard.Replay.Script
import Draftboard.Config.Settings
import Draftboard.Desk.Row
import Draftboard.Desk.Editing
/-!
# Running a script

A run takes the steps of a script one after the other on a fresh desk and says of each what it
did.
-/

namespace Draftboard.Replay

/-! ## Results -/

inductive StepResult where
  | committed (id : PackageId) (wasNew : Bool) (lockVersion : Nat) (changes : Attributes)
  | failed (code message : String)
  | modified (names : List String)
  | cleared
  | cancelled
  | noChange
  | removed
deriving DecidableEq

namespace StepResult

def ofCommit (c : Commit) : StepResult := committed c.id c.wasNew c.workPackage.lockVersion c.changes

def ofError (e : EditError) : StepResult := failed e.code.code e.message

def isFailure : StepResult → Bool
  | failed .. => true
  | _ => false

end StepResult

structure StepReport where
  index : Nat
  op : String
  target : PackageId
  result : StepResult
deriving DecidableEq

/-! ## Sessions -/

structure Session where
  desk : Desk
  /-- The receiver of the event bus that the report is made from. -/
  receiver : Nat
  view : Timeline.View
  notifiesSuccess : Bool
  attachments : IdMap AttachmentList := ∅

namespace Session

def hooks (s : HookSettings) : List Hook :=
  (if s.invalidateActivity then [.invalidateActivity] else []) ++
    (if s.refreshParent then [.refreshParent] else []) ++
    (if s.publishEvents then [.publishEvents] else [])

def server (f : Fixtures) : Server :=
  let s := f.schemas.foldl Server.insertSchema {}
  let s := f.workPackages.foldl Server.insert s
  (f.attachments.map (·.attachment)).foldl Server.insertAttachment s

def attachmentLists (fixtures : List AttachmentFixture) : IdMap AttachmentList :=
  fixtures.foldl
    (fun lists f =>
      let l := lists[f.workPackage]?.getD { workPackage := f.workPackage }
      lists.insert f.workPackage { l with elements := l.elements ++ [f.attachment] })
    ∅

/-- The session of a script; it fails if its timeline has a scale that cannot be. -/
def start (script : Script) (settings : EditorSettings) (clock : Clock) :
    Except Timeline.InvalidScale Session := do
  let today := (Date.ofDay? clock.now.dayNumber).getD default
  let view ← Timeline.View.ofScale (script.view.pixelsPerDay.getD settings.pixelsPerDay)
    (script.view.start.getD today) script.view.selecting
  let (bus, receiver) := EventBus.subscribe {}
  let desk : Desk :=
    { server := server script.fixtures, clock, hooks := hooks settings.hooks, bus }
  .ok { desk, receiver, view, notifiesSuccess := settings.notifySuccess,
        attachments := attachmentLists script.fixtures.attachments }

def changeset (s : Session) (id : PackageId) : Desk × Except EditError Handle :=
  match s.desk.registered? id with
  | some h => (s.desk, .ok h)
  | none =>
    let (d, result) := s.desk.changeForId id
    (d, result.mapError .api)

def modified (d : Desk) (h : Handle) : StepResult := .modified (d.changeset h).changedNames

def lastError (d : Desk) : StepResult :=
  let last := d.notices.reverse.findSome? fun
    | .failed _ code message => some (StepResult.failed code message)
    | .saved _ => none
  last.getD (.failed "" "failed without a notification")

/-! ## Steps -/

def create (s : Session) (typeHref : String) : Desk × Except EditError StepResult :=
  match s.desk.ensureSchema typeHref with
  | (d, .error error) => (d, .error (.api error))
  | (d, .ok _) => ((d.changeFor (.unsaved typeHref) none).1, .ok (.modified []))

def set (s : Session) (id : PackageId) (name : String) (value : AttrValue) :
    Desk × Except EditError StepResult :=
  match s.changeset id with
  | (d, .error error) => (d, .error error)
  | (d, .ok h) =>
    let d := d.setValue h name value
    (d, .ok (modified d h))

def save (s : Session) (id : PackageId) : Desk × Except EditError StepResult :=
  match s.changeset id with
  | (d, .error error) => (d, .error error)
  | (d, .ok h) =>
    match d.save h with
    | (d, .error error) => (d, .error error)
    | (d, .ok commit) =>
      (if s.notifiesSuccess then d.notify (.saved commit.id) else d, .ok (.ofCommit commit))

def reset (s : Session) (id : PackageId) : Desk × StepResult :=
  match s.desk.registered? id with
  | none => (s.desk, .noChange)
  | some h => (s.desk.reset h, .cleared)

def groupDrop (s : Session) (id : PackageId) (grouping : Grouping) (group : String) :
    Desk × Except EditError StepResult :=
  match s.desk.load id with
  | (d, .error error) => (d, .error (.api error))
  | (d, .ok workPackage) =>
    if grouping.applies then
      match grouping.drop d workPackage group with
      | (d, some commit) => (d, .ok (.ofCommit commit))
      | (d, none) => (d, .ok (lastError d))
    else (d, .ok .noChange)

def gesture (row : Row) (d : Desk) (direction : Timeline.Direction) (fromX : Float)
    (toX : Option Float) (escape : Bool) : Desk × Option Outcome :=
  match row.pointerDown d direction fromX with
  | (d, _, some outcome) => (d, some outcome)
  | (d, row, none) =>
    let (d, row, _) := match toX with
      | some x => row.pointerMove d x
      | none => (d, row, none)
    let (d, _, outcome) := if escape then row.escape d else row.pointerUp d
    (d, outcome)

def outcomeResult (d : Desk) : Option Outcome → StepResult
  | some (.saved commit) => .ofCommit commit
  | some .cancelled => .cancelled
  | some .failed => lastError d
  | some .noChange | none => .noChange

def timeline (s : Session) (id : PackageId) (direction : Timeline.Direction) (fromX : Float)
    (toX : Option Float) (escape : Bool) (rendered : List PackageId) :
    Desk × Except EditError StepResult :=
  match s.desk.load id with
  | (d, .error error) => (d, .error (.api error))
  | (d, .ok workPackage) =>
    let (d, row) := Row.make d s.view workPackage rendered
    let row := { row with publishesEvents := true, notifiesSuccess := s.notifiesSuccess }
    let (d, outcome) := gesture row d direction fromX toX escape
    (d, .ok (outcomeResult d outcome))

def filterDefaults (s : Session) (id : PackageId) (filters : List Filter) :
    Desk × Except EditError StepResult :=
  match s.changeset id with
  | (d, .error error) => (d, .error error)
  | (d, .ok h) =>
    match d.ensureSchema (d.changeset h).pristine.typeHref with
    | (d, .error error) => (d, .error (.api error))
    | (d, .ok schema) =>
      let (d, _) := d.edit h fun c => c.applyFilters schema filters
      (d, .ok (modified d h))

def removeAttachment (s : Session) (id : PackageId) (attachment : String) : Session × StepResult :=
  match s.attachments[id]? with
  | none => (s, .noChange)
  | some l =>
    match l.find? attachment with
    | none => (s, .noChange)
    | some target =>
      let (d, l, removed) := s.desk.removeAttachment l target
      ({ s with desk := d, attachments := s.attachments.insert id l },
        if removed then .removed else lastError d)

/-- The session after a step that worked on the desk alone. -/
def onDesk (s : Session) (step : Desk × Except EditError StepResult) : Session × StepResult :=
  ({ s with desk := step.1 }, match step.2 with
    | .ok result => result
    | .error error => .ofError error)

def run (s : Session) : Step → Session × StepResult
  | .create typeHref => s.onDesk (s.create typeHref)
  | .set id name value => s.onDesk (s.set id name value)
  | .save id => s.onDesk (s.save id)
  | .reset id =>
    let (d, result) := s.reset id
    ({ s with desk := d }, result)
  | .stop id => ({ s with desk := s.desk.stopEditing id }, .cleared)
  | .groupDrop id grouping group => s.onDesk (s.groupDrop id grouping group)
  | .timeline id direction fromX toX escape rendered =>
    s.onDesk (s.timeline id direction fromX toX escape rendered)
  | .filterDefaults id filters => s.onDesk (s.filterDefaults id filters)
  | .removeAttachment id attachment => s.removeAttachment id attachment

/-- Takes steps in order, the first of them with the given index. -/
def runAll (s : Session) : Nat → List Step → Session × List StepReport
  | _, [] => (s, [])
  | index, step :: rest =>
    let (s, result) := s.run step
    let (s, reports) := s.runAll (index + 1) rest
    (s, { index, op := step.name, target := step.target, result } :: reports)

end Session

/-! ## Reports -/

structure Report where
  script : String
  steps : List StepReport
  notices : List Notice
  events : List DomainEvent
  /-- The fixtures and everything saved since, as the server has them in the end. -/
  workPackages : List Snapshot
deriving DecidableEq

def Report.failed (r : Report) : Nat := r.steps.countP (·.result.isFailure)

/-- The ids of the fixtures and of all commits, in order. -/
def reportedIds (script : Script) (steps : List StepReport) : List PackageId :=
  let fromFixtures := script.fixtures.workPackages.map (·.id)
  let fromSteps := steps.filterMap fun step =>
    match step.result with
    | .committed id .. => some id
    | _ => none
  (Std.ExtTreeSet.ofList (fromFixtures ++ fromSteps)).toList

def run (name : String) (script : Script) (settings : EditorSettings) (clock : Clock) :
    Except Timeline.InvalidScale Report := do
  let session ← Session.start script settings clock
  let (session, steps) := session.runAll 0 script.steps
  .ok { script := name, steps, notices := session.desk.notices
        events := (session.desk.bus.drain session.receiver).2
        workPackages := (reportedIds script steps).filterMap session.desk.server.stored? }

end Draftboard.Replay
