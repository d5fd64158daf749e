import Draftboard.Changeset.Payload
import Draftboard.Errors
/-!
# Change-sets

The pending edits of one work package: modified attributes over the snapshot they were made on.
Writing the pristine value back takes the modification out again.
-/

namespace Draftboard

structure Changeset where
  pristine : Snapshot
  changes : Attributes := ∅
  /-- A save of this change-set has been accepted and has not come back. -/
  inFlight : Bool := false
  form : Option Form := none
deriving DecidableEq, Inhabited

namespace Changeset

def id (c : Changeset) : PackageId := c.pristine.id

/-! ## Reading and writing -/

def value (c : Changeset) (name : String) : AttrValue := c.changes[name]?.getD (c.pristine.value name)

/-- Records a modification; a value that is the pristine one removes it. -/
def setValue (c : Changeset) (name : String) (value : AttrValue) : Changeset :=
  { c with changes :=
    if (c.pristine.value name).same value then c.changes.erase name else c.changes.insert name value }

def setValues (c : Changeset) (edits : List (String × AttrValue)) : Changeset :=
  edits.foldl (fun c (name, value) => c.setValue name value) c

def setForm (c : Changeset) (form : Form) : Changeset := { c with form := some form }

def isEmpty (c : Changeset) : Bool := c.changes.isEmpty

def changedNames (c : Changeset) : List String := c.changes.keys

/-- Drops the modifications and the form. Only the save that raised the flag may lower it. -/
def clear (c : Changeset) : Changeset := { c with changes := ∅, form := none }

/-- The pristine snapshot with the modifications applied; null takes an attribute out. -/
def projected (c : Changeset) : Snapshot :=
  { c.pristine with attributes :=
    (c.pristine.attributes ∪ c.changes).filter fun name _ => c.changes[name]? ≠ some .null }

/-! ## Editability -/

def isWritable (c : Changeset) (name : String) (schema : Schema) : Bool :=
  !c.pristine.readonly && schema.isWritable name

/-- A control is disabled when its attribute is not writable or a save is pending. -/
def isDisabled (c : Changeset) (name : String) (schema : Schema) : Bool :=
  !c.isWritable name schema || c.inFlight

/-! ## Validation -/

def changeFault? (schema : Schema) (name : String) (value : AttrValue) : Option String :=
  match schema.get? name with
  | none => some "is not a known attribute"
  | some field =>
    if !field.writable then some "is not writable"
    else if !field.kind.accepts value then some "has an invalid format"
    else none

/-- The value a required field will have: modification, else form default, else pristine value. -/
def effectiveValue (c : Changeset) (name : String) : AttrValue :=
  (c.changes[name]?.or (c.form.bind fun form => form.payload[name]?)).getD (c.pristine.value name)

/-- The messages of the form, then those about modifications, then those about blank fields. -/
def validate (c : Changeset) (schema : Schema) : ValidationErrors :=
  let fromForm := ValidationErrors.ofMap (c.form.elim ∅ (·.validationErrors))
  let fromChanges := c.changes.toList.foldl
    (fun errors (name, value) => errors.addAll name (changeFault? schema name value).toList) fromForm
  schema.requiredFields.foldl
    (fun errors name =>
      if (c.effectiveValue name).isBlank then errors.add name "can't be blank" else errors)
    fromChanges

/-- The payload to submit: the form's values with the modifications over them. -/
def buildPayload (c : Changeset) (schema : Schema) : Except ValidationErrors Payload :=
  let errors := c.validate schema
  if errors.isEmpty then
    let start : Payload := { lockVersion := c.pristine.lockVersion }
    let withForm := start.placeAll schema (c.form.elim ∅ (·.payload))
    .ok (withForm.placeAll schema c.changes)
  else .error errors

/-! ## Small facts -/

theorem getElem?_changes_setValue (c : Changeset) (name other : String) (value : AttrValue) :
    (c.setValue name value).changes[other]? =
      if name = other then
        (if (c.pristine.value name).same value then none else some value)
      else c.changes[other]? := by
  unfold setValue
  split <;> simp only [Std.ExtTreeMap.getElem?_insert, Std.ExtTreeMap.getElem?_erase,
    Std.LawfulEqOrd.compare_eq_iff_eq]

theorem pristine_setValue (c : Changeset) (name : String) (value : AttrValue) :
    (c.setValue name value).pristine = c.pristine := rfl

theorem pristine_setValues (c : Changeset) (edits : List (String × AttrValue)) :
    (c.setValues edits).pristine = c.pristine := by
  unfold setValues
  induction edits generalizing c with
  | nil => rfl
  | cons edit rest ih => exact (ih _).trans (pristine_setValue c edit.1 edit.2)

theorem inFlight_setValues (c : Changeset) (edits : List (String × AttrValue)) :
    (c.setValues edits).inFlight = c.inFlight := by
  unfold setValues
  induction edits generalizing c with
  | nil => rfl
  | cons edit rest ih => exact (ih _).trans rfl

theorem isEmpty_clear (c : Changeset) : c.clear.isEmpty = true := by
  simp [isEmpty, clear]

end Changeset

/-! ## The projected resource -/

/-- What a change-set shows, to be read and written. Writes are recorded as modifications. -/
structure ProjectedResource where
  changeset : Changeset
deriving DecidableEq, Inhabited

namespace ProjectedResource

def get (r : ProjectedResource) (name : String) : AttrValue := r.changeset.value name

def set (r : ProjectedResource) (name : String) (value : AttrValue) : ProjectedResource :=
  { changeset := r.changeset.setValue name value }

def id (r : ProjectedResource) : PackageId := r.changeset.id

def toSnapshot (r : ProjectedResource) : Snapshot := r.changeset.projected

end ProjectedResource

def Changeset.projectedResource (c : Changeset) : ProjectedResource := { changeset := c }

end Draftboard
