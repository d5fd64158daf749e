import Draftboard.Desk.Save
/-!
# Edit fields and the status button

Whether single attributes can be edited right now.
-/

namespace Draftboard

/-- Whether an attribute of a work package can be edited; without a schema nothing can. -/
def Desk.isEditable (d : Desk) (workPackage : Snapshot) (name : String) : Bool :=
  !workPackage.readonly && (d.schemaFor? workPackage).any (·.isWritable name)

/-! ## Edit fields -/

/-- One attribute of a displayed work package, open for editing or not. -/
structure EditField where
  workPackage : PackageId
  name : String
  active : Bool := false
deriving DecidableEq, Inhabited

namespace EditField

def resource? (f : EditField) (d : Desk) : Option Snapshot := d.merged? f.workPackage

def isEditable (f : EditField) (d : Desk) : Bool :=
  (f.resource? d).any fun workPackage => d.isEditable workPackage f.name

/-- Opens the field if it can be edited; an open one stays open. -/
def activateIfEditable (f : EditField) (d : Desk) : EditField :=
  { f with active := f.active || f.isEditable d }

def deactivate (f : EditField) : EditField := { f with active := false }

end EditField

/-! ## The status button -/

inductive ButtonTitle where
  | none
  | readOnly
  | statusBlocked
deriving DecidableEq

namespace ButtonTitle

def name : ButtonTitle → String
  | none => "none"
  | readOnly => "read_only"
  | statusBlocked => "status_blocked"

def messageKey? : ButtonTitle → Option String
  | none => Option.none
  | readOnly => some "work_packages.message_work_package_read_only"
  | statusBlocked => some "work_packages.message_work_package_status_blocked"

end ButtonTitle

/-- The button that changes the status of a work package. -/
structure StatusButton where
  workPackage : Snapshot
deriving DecidableEq, Inhabited

namespace StatusButton

def refresh (b : StatusButton) (d : Desk) : StatusButton :=
  { workPackage := (d.merged? b.workPackage.id).getD b.workPackage }

def allowed (b : StatusButton) (d : Desk) : Bool := d.isEditable b.workPackage Attribute.status

/-- Whether the button is disabled: the status may not be changed, or not in the registered
change-set, or a save of that is pending. -/
def isDisabled (b : StatusButton) (d : Desk) : Bool :=
  match d.schemaFor? b.workPackage with
  | none => true
  | some schema =>
    let blocked := match d.registered? b.workPackage.id with
      | none => b.workPackage.readonly || !schema.isWritable Attribute.status
      | some h => (d.changeset h).isDisabled Attribute.status schema
    !b.allowed d || blocked

def title (b : StatusButton) (d : Desk) : ButtonTitle :=
  if b.workPackage.readonly then .readOnly
  else if b.isDisabled d then .statusBlocked
  else .none

end StatusButton

end Draftboard
