import Draftboard.Changeset.FilterDefaults
import Draftboard.Desk.Grouping
import Draftboard.Timeline.Drag
import Draftboard.Json.Reader
/-!
# Replay scripts

A script fills a server with fixtures and lists the steps of an editing session.
-/

namespace Draftboard.Replay

/-! ## Scripts -/

structure AttachmentFixture where
  workPackage : PackageId
  attachment : Attachment
deriving DecidableEq, Inhabited

structure Fixtures where
  schemas : List Schema := []
  workPackages : List Snapshot := []
  attachments : List AttachmentFixture := []
deriving DecidableEq, Inhabited

/-- The timeline of a script; what it leaves open, the settings and the calendar decide. -/
structure ScriptView where
  start : Option Date := none
  pixelsPerDay : Option Float := none
  selecting : Bool := false
deriving Inhabited

inductive Step where
  /-- Start editing an unsaved work package of a type. -/
  | create (typeHref : String)
  | set (id : PackageId) (name : String) (value : AttrValue)
  | save (id : PackageId)
  | reset (id : PackageId)
  | stop (id : PackageId)
  | groupDrop (id : PackageId) (grouping : Grouping) (group : String)
  /-- Press, move if there is a place to move to, and then escape or release. -/
  | timeline (id : PackageId) (direction : Timeline.Direction) (fromX : Float) (toX : Option Float)
      (escape : Bool) (rendered : List PackageId)
  | filterDefaults (id : PackageId) (filters : List Filter)
  | removeAttachment (id : PackageId) (attachment : String)

namespace Step

def name : Step → String
  | create _ => "create"
  | set .. => "set"
  | save _ => "save"
  | reset _ => "reset"
  | stop _ => "stop"
  | groupDrop .. => "group_drop"
  | timeline .. => "timeline"
  | filterDefaults .. => "filter_defaults"
  | removeAttachment .. => "remove_attachment"

def target : Step → PackageId
  | create _ => .unsaved
  | set id .. | save id | reset id | stop id | groupDrop id .. | timeline id .. | filterDefaults id _
  | removeAttachment id _ => id

end Step

structure Script where
  fixtures : Fixtures := {}
  view : ScriptView := {}
  steps : List Step := []
deriving Inhabited

/-! ## Reading -/

open Json

/-- A fixture is always an object, and taken in whole: the attachment is told by fields beside those
of the fixture. -/
def AttachmentFixture.ofJson? (j : Json) : Option AttachmentFixture := do
  let .obj fields ← j.held? | none
  let [workPackage, id, fileName] ← (Json.obj fields).record? ["work_package", "id", "fileName"] | none
  let workPackage ← required workPackage
  let id ← required id
  let fileName ← required fileName
  some { workPackage, attachment := { id, fileName } }

instance : FromJson AttachmentFixture := ⟨AttachmentFixture.ofJson?⟩

def Fixtures.ofJson? (j : Json) : Option Fixtures := do
  let [schemas, workPackages, attachments] ← j.record? ["schemas", "work_packages", "attachments"] | none
  let schemas ← defaulted [] schemas
  let workPackages ← defaulted [] workPackages
  let attachments ← defaulted [] attachments
  some { schemas, workPackages, attachments }

instance : FromJson Fixtures := ⟨Fixtures.ofJson?⟩

def ScriptView.ofJson? (j : Json) : Option ScriptView := do
  let [start, pixelsPerDay, selecting] ← recordFrom? 2
    ["date_display_start", "pixels_per_day", "active_selection_mode"] j | none
  let start ← nullable start
  let pixelsPerDay ← nullable pixelsPerDay
  let selecting ← defaulted false selecting
  some { start, pixelsPerDay, selecting }

instance : FromJson ScriptView := ⟨ScriptView.ofJson?⟩

namespace Step

def groupDropOfJson? (j : Json) : Option Step := do
  let [id, name, groups, group] ← j.record? ["id", "attribute", "groups", "group"] | none
  let id ← required id
  let name ← nullable name
  let groups ← defaulted [] groups
  let group ← required group
  some (.groupDrop id { name, groups } group)

def timelineOfJson? (j : Json) : Option Step := do
  let [id, direction, fromX, toX, escape, rendered] ← recordFrom? 4
    ["id", "direction", "from_x", "to_x", "escape", "rendered"] j | none
  let id ← required id
  let direction ← required direction
  let fromX ← required fromX
  let toX ← nullable toX
  let escape ← defaulted false escape
  let rendered ← defaulted [] rendered
  some (.timeline id direction fromX toX escape rendered)

/-- A step of a known kind from its other fields. -/
def ofFields? (kind : String) (j : Json) : Option Step :=
  match kind with
  | "create" => do
    let [typeHref] ← j.record? ["type_href"] | none
    some (.create (← required typeHref))
  | "set" => do
    let [id, name, value] ← j.record? ["id", "attribute", "value"] | none
    some (.set (← required id) (← required name)
      (← required value))
  | "save" => do
    let [id] ← j.record? ["id"] | none
    some (.save (← required id))
  | "reset" => do
    let [id] ← j.record? ["id"] | none
    some (.reset (← required id))
  | "stop" => do
    let [id] ← j.record? ["id"] | none
    some (.stop (← required id))
  | "group_drop" => groupDropOfJson? j
  | "timeline" => timelineOfJson? j
  | "filter_defaults" => do
    let [id, filters] ← j.record? ["id", "filters"] | none
    some (.filterDefaults (← required id) (← required filters))
  | "remove_attachment" => do
    let [id, attachment] ← j.record? ["id", "attachment"] | none
    some (.removeAttachment (← required id) (← required attachment))
  | _ => none

/-- The field `op` tells the kind of a step; in a list it comes first. A step is taken in whole
before its kind is looked at. -/
def ofJson? (j : Json) : Option Step := do
  match ← j.held? with
  | .arr (.str kind :: rest) => ofFields? kind (.arr rest)
  | .obj fields => ofFields? (← required (← single? "op" fields)) (.obj fields)
  | _ => none

instance : FromJson Step := ⟨ofJson?⟩

end Step

def scriptFields : List String := ["fixtures", "view", "steps"]

/-- A field that a script does not know is an error. -/
def Script.ofJson? (j : Json) : Option Script := do
  let known := match j with
    | .obj fields => fields.all fun (name, _) => scriptFields.contains name
    | _ => true
  if !known then none
  let [fixtures, view, steps] ← j.record? scriptFields | none
  let fixtures ← defaulted {} fixtures
  let view ← defaulted {} view
  let steps ← defaulted [] steps
  some { fixtures, view, steps }

/-- Reads a script. What stands in fields that nobody asks for only has to be well formed. -/
def Script.read? (text : String) : Option Script := (Json.readLoosely? text).bind Script.ofJson?

end Draftboard.Replay
