import Draftboard.Proofs.Desk.Saves
/-!
# What a save makes of each attribute

The committed snapshot has for each attribute the modification, else the value of the form, else
what the server had stored, else the pristine value. A cleared attribute is submitted as null and
stored as null, so the pristine value does not come back.
-/

namespace Draftboard

/-! ## The saved record -/

theorem Snapshot.value_retainFrom (s previous : Snapshot) (name : String) :
    (s.retainFrom previous).value name = s.attributes[name]?.getD (previous.value name) := by
  rw [value, getElem?_retainFrom, Option.getD_or]
  rfl

namespace Desk

/-- What the server stores for the work package of a change-set. A new one has nothing stored. -/
def storedFor? (d : Desk) (c : Changeset) : Option Snapshot :=
  if c.pristine.isNew then none else d.server.stored? c.id

/-- The value that a save is to give an attribute: the modification, else the form's value, else the
stored value (a null counts), else the pristine value. -/
def valueAfterSave (d : Desk) (c : Changeset) (name : String) : AttrValue :=
  ((c.submitted? name).or ((d.storedFor? c).bind (·.attributes[name]?))).getD (c.pristine.value name)

section Saved

variable {s : Server} {now : Instant} {c : Changeset} {schema : Schema} {payload : Payload}
  {saved : Snapshot}

theorem attributes_saved_new (hnew : c.pristine.isNew = true)
    (built : c.buildPayload schema = .ok payload)
    (hr : s.savedRecord now c.pristine payload = .ok saved) (name : String) :
    saved.attributes[name]? = (c.submitted? name).or c.pristine.attributes[name]? := by
  rw [Server.saved_of_isNew hnew hr,
    Snapshot.getElem?_applyPayload (Changeset.isSplit_of_buildPayload built),
    Changeset.get?_of_buildPayload built]

theorem attributes_saved_stored {current : Snapshot} (hnew : c.pristine.isNew = false)
    (built : c.buildPayload schema = .ok payload) (hp : s.packages[c.id]? = some current)
    (hr : s.savedRecord now c.pristine payload = .ok saved) (name : String) :
    saved.attributes[name]? = (c.submitted? name).or current.attributes[name]? := by
  obtain ⟨found, hfound, -, rfl⟩ := Server.saved_of_stored hnew hr
  have heq : found = current := Option.some.inj (hfound.symm.trans hp)
  rw [← heq]
  exact (Snapshot.getElem?_applyPayload (Changeset.isSplit_of_buildPayload built) found name).trans
    (by rw [Changeset.get?_of_buildPayload built])

theorem value_commit_new (hnew : c.pristine.isNew = true) (built : c.buildPayload schema = .ok payload)
    (hr : s.savedRecord now c.pristine payload = .ok saved) (name : String) :
    (c.commit saved).workPackage.value name = (c.submitted? name).getD (c.pristine.value name) := by
  rw [Changeset.commit, Snapshot.value_retainFrom, attributes_saved_new hnew built hr, Option.getD_or]
  congr 1
  rw [Snapshot.value]
  cases c.pristine.attributes[name]? <;> rfl

theorem value_commit_stored {current : Snapshot} (hnew : c.pristine.isNew = false)
    (built : c.buildPayload schema = .ok payload) (hp : s.packages[c.id]? = some current)
    (hr : s.savedRecord now c.pristine payload = .ok saved) (name : String) :
    (c.commit saved).workPackage.value name =
      ((c.submitted? name).or current.attributes[name]?).getD (c.pristine.value name) := by
  rw [Changeset.commit, Snapshot.value_retainFrom, attributes_saved_stored hnew built hp hr]

end Saved

/-! ## Fidelity -/

def noteDeskAt (lockVersion : Nat) : Desk :=
  let stored : Snapshot :=
    { id := { text := "7" }, lockVersion, typeHref := "task",
      attributes := (∅ : Attributes).insert "note" (.text "old") }
  let schema : Schema :=
    { typeHref := "task", fields := (∅ : TextMap FieldSchema).insert "note" { writable := true } }
  let changeset : Changeset := { pristine := stored, changes := (∅ : Attributes).insert "note" .null }
  let server := (({} : Server).insert stored).insertSchema schema
  (({ server } : Desk).newDraft { changeset, reported := true }).1

def noteDesk : Desk := noteDeskAt 3

end Desk

end Draftboard
