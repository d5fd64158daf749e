import Draftboard.Package.Codec
/-!
# Attachments

Files attached to a work package, and the list of them.
-/

namespace Draftboard

structure Attachment where
  id : String
  fileName : String
deriving DecidableEq, Inhabited

namespace Attachment

def toJson (a : Attachment) : Json := .obj [("id", a.id), ("fileName", a.fileName)]

def ofJson? (j : Json) : Option Attachment := do
  let [id, fileName] ← j.record? ["id", "fileName"] | none
  let id ← Json.required id
  let fileName ← Json.required fileName
  some { id, fileName }

instance : ToJson Attachment := ⟨toJson⟩
instance : FromJson Attachment := ⟨ofJson?⟩

end Attachment

structure AttachmentList where
  workPackage : PackageId
  elements : List Attachment := []
deriving DecidableEq, Inhabited

namespace AttachmentList

/-- Attachments are told apart by id. -/
def contains (l : AttachmentList) (a : Attachment) : Bool := l.elements.any (·.id = a.id)

def find? (l : AttachmentList) (id : String) : Option Attachment := l.elements.find? (·.id = id)

def without (l : AttachmentList) (id : String) : AttachmentList :=
  { l with elements := l.elements.filter (·.id ≠ id) }

def toJson (l : AttachmentList) : Json :=
  .obj [("work_package", l.workPackage), ("elements", l.elements)]

def ofJson? (j : Json) : Option AttachmentList := do
  let [workPackage, elements] ← j.record? ["work_package", "elements"] | none
  let workPackage ← Json.required workPackage
  let elements ← Json.required elements
  some { workPackage, elements }

instance : ToJson AttachmentList := ⟨toJson⟩
instance : FromJson AttachmentList := ⟨ofJson?⟩

end AttachmentList

end Draftboard
