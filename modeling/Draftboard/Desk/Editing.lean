import Draftboard.Desk.Views
/-!
# Editing

Loading work packages and schemas, handing out one change-set for each work package, editing it,
and giving it up again.
-/

namespace Draftboard

/-- Where a call is that needs a schema. -/
inductive SchemaStage where
  /-- It is about to look in the cache. -/
  | looks
  | asks
  /-- The server has sent the schema, which is not in the cache yet. -/
  | inserts (schema : Schema)
  | has (schema : Schema)

namespace Desk

/-! ## Loading -/

/-- The cached work package, fetched when it is missing. -/
def load (d : Desk) (id : PackageId) : Desk × Except ApiError Snapshot :=
  match d.cache.get? id with
  | some snapshot => (d, .ok snapshot)
  | none =>
    match d.request (·.fetch id) with
    | (d, .ok snapshot) => (d.putPackage snapshot, .ok snapshot)
    | (d, .error error) => (d, .error error)

def fetchSchema (d : Desk) (typeHref : String) : Desk × Except ApiError Schema :=
  match d.request (·.fetchSchema typeHref) with
  | (d, .ok schema) => ({ d with schemas := d.schemas.insert schema.typeHref schema }, .ok schema)
  | (d, .error error) => (d, .error error)

def ensureSchema (d : Desk) (typeHref : String) : Desk × Except ApiError Schema :=
  match d.schemas[typeHref]? with
  | some schema => (d, .ok schema)
  | none => d.fetchSchema typeHref

/-- One step of `ensureSchema`. Others may go on between two steps. -/
def stepSchema (d : Desk) (typeHref : String) : SchemaStage → Desk × Except ApiError SchemaStage
  | .looks =>
    match d.schemas[typeHref]? with
    | some schema => (d, .ok (.has schema))
    | none => (d, .ok .asks)
  | .asks =>
    match d.request (·.fetchSchema typeHref) with
    | (d, .ok schema) => (d, .ok (.inserts schema))
    | (d, .error error) => (d, .error error)
  | .inserts schema =>
    ({ d with schemas := d.schemas.insert schema.typeHref schema }, .ok (.has schema))
  | .has schema => (d, .ok (.has schema))

def schemaFor? (d : Desk) (snapshot : Snapshot) : Option Schema := d.schemas[snapshot.typeHref]?

/-! ## Change-sets -/

/-- The newest snapshot at hand: the cached one unless it is older than the one given. -/
def latest (d : Desk) (snapshot : Snapshot) : Snapshot :=
  match d.cache.get? snapshot.id with
  | some cached => if snapshot.lockVersion ≤ cached.lockVersion then cached else snapshot
  | none => snapshot

/-- An empty change-set on an older snapshot is not worth keeping. -/
def isStale (c : Changeset) (latest : Snapshot) : Bool :=
  c.isEmpty && c.pristine.lockVersion < latest.lockVersion

def startEditing (d : Desk) (snapshot : Snapshot) (form : Option Form) : Desk × Handle :=
  let (d, h) := d.newDraft { changeset := { pristine := snapshot, form }, reported := true }
  ({ d with registry := d.registry.insert snapshot.id h }, h)

/-- Starts or goes on editing a work package: the registered change-set, unless it is stale. -/
def changeFor (d : Desk) (snapshot : Snapshot) (form : Option Form) : Desk × Handle :=
  let latest := d.latest snapshot
  match d.registered? latest.id with
  | some h => if isStale (d.changeset h) latest then d.startEditing latest form else (d, h)
  | none => d.startEditing latest form

def changeForId (d : Desk) (id : PackageId) : Desk × Except ApiError Handle :=
  match d.load id with
  | (d, .error error) => (d, .error error)
  | (d, .ok snapshot) =>
    match d.ensureSchema snapshot.typeHref with
    | (d, .error error) => (d, .error error)
    | (d, .ok _) =>
      let (d, h) := d.changeFor snapshot none
      (d, .ok h)

/-! ## Edits -/

/-- Edits a change-set; its views hear of it once, and only if the modifications differ. -/
def edit {α : Type} (d : Desk) (h : Handle) (f : Changeset → Changeset × α) : Desk × α :=
  let before := d.changeset h
  let (after, a) := f before
  let d := d.modifyQuietly h fun _ => after
  if d.isReported h && !before.changes.same after.changes then (d.pushViews after.id, a) else (d, a)

def setValue (d : Desk) (h : Handle) (name : String) (value : AttrValue) : Desk :=
  (d.edit h fun c => (c.setValue name value, ())).1

def setValues (d : Desk) (h : Handle) (edits : List (String × AttrValue)) : Desk :=
  (d.edit h fun c => (c.setValues edits, ())).1

/-! ## Giving up -/

/-- Drops the edits of a change-set; if it is the registered one, it is not any longer. -/
def reset (d : Desk) (h : Handle) : Desk :=
  let c := d.changeset h
  let d := d.modifyQuietly h Changeset.clear
  if d.registered? c.id = some h then
    let d := { d with registry := d.registry.erase c.id }
    if c.isEmpty then d else d.pushViews c.id
  else d

/-- Drops the edits of whatever change-set is registered for a work package. A save that is under
way keeps its flag and still comes to its end. -/
def stopEditing (d : Desk) (id : PackageId) : Desk :=
  match d.registered? id with
  | none => d
  | some h =>
    let hadEdits := !(d.changeset h).isEmpty
    let d := { d with registry := d.registry.erase id }
    let d := d.modifyQuietly h Changeset.clear
    if hadEdits then d.pushViews id else d

/-! ## Attachments -/

/-- Deletes an attachment on the server and takes it off the list, and tells whether that went
well. After a failure the list is as before, and the user is told. -/
def removeAttachment (d : Desk) (l : AttachmentList) (a : Attachment) : Desk × AttachmentList × Bool :=
  match d.request (·.deleteAttachment a) with
  | (d, .ok ()) => (d, l.without a.id, true)
  | (d, .error error) => (d.notify (.ofError (.api error) l.workPackage), l, false)

end Desk

end Draftboard
