import Draftboard.Desk.Save
/-!
# Grouped tables

Dropping a row of a grouped table into another group: the group's value is written into the
grouped attribute and saved at once.
-/

namespace Draftboard

/-! ## Groups -/

structure Group where
  identifier : String
  value : AttrValue := .null
  /-- The resources that the value refers to, when it is made of links. -/
  valueLinks : List Link := []
deriving DecidableEq, Inhabited

namespace Group

def toJson (g : Group) : Json :=
  .obj [("identifier", g.identifier), ("value", g.value), ("valueLinks", g.valueLinks)]

def ofJson? (j : Json) : Option Group := do
  let [identifier, value, valueLinks] ← j.record? ["identifier", "value", "valueLinks"] | none
  let identifier ← Json.required identifier
  let value ← Json.defaulted .null value
  let valueLinks ← Json.defaulted [] valueLinks
  some { identifier, value, valueLinks }

instance : ToJson Group := ⟨toJson⟩
instance : FromJson Group := ⟨ofJson?⟩

def dropValue (g : Group) : AttrValue :=
  match g.valueLinks with
  | [] => g.value
  | [single] => .link single
  | many => .links many

end Group

/-! ## Grouping -/

/-- What a table is grouped by, if it is, and its groups. -/
structure Grouping where
  name : Option String := none
  groups : List Group := []
deriving DecidableEq, Inhabited

namespace Grouping

def applies (g : Grouping) : Bool := g.name.isSome

def canPickUp (g : Grouping) (d : Desk) (workPackage : Snapshot) : Bool :=
  g.name.any fun name =>
    !workPackage.readonly && (d.schemaFor? workPackage).any (·.isWritable name)

/-- The value of a group; an unknown group clears the attribute. -/
def valueFor (g : Grouping) (identifier : String) : AttrValue :=
  ((g.groups.find? (·.identifier = identifier)).map Group.dropValue).getD .null

/-- Moves a work package into a group and saves. The user is told of a failure. -/
def drop (g : Grouping) (d : Desk) (workPackage : Snapshot) (identifier : String) :
    Desk × Option Commit :=
  match g.name with
  | none => (d, none)
  | some name =>
    let (d, h) := d.changeFor workPackage none
    match (d.setValue h name (g.valueFor identifier)).save h with
    | (d, .ok commit) => (d, some commit)
    | (d, .error error) => (d.notify (.ofError error workPackage.id), none)

end Grouping

end Draftboard
