import Draftboard.Package.Id
import Draftboard.Package.Value
import Draftboard.Calendar.Instant
/-!
# Snapshots

The last known state of a work package as the server has it.
-/

namespace Draftboard

/-! ## Names of attributes with a meaning of their own -/

namespace Attribute

def subject : String := "subject"
def status : String := "status"
def parent : String := "parent"
def startDate : String := "startDate"
def dueDate : String := "dueDate"

end Attribute

/-- A work package at one lock version. -/
structure Snapshot where
  id : PackageId
  lockVersion : Nat := 0
  /-- The type of the work package, which is also the key of its schema. -/
  typeHref : String
  attributes : Attributes := ∅
  isLeaf : Bool := true
  readonly : Bool := false
  updatedAt : Option Instant := none
deriving DecidableEq, Inhabited

namespace Snapshot

def unsaved (typeHref : String) : Snapshot := { id := .unsaved, typeHref }

def isNew (s : Snapshot) : Bool := s.id.isNew

/-- The value of an attribute; an absent one is null. -/
def value (s : Snapshot) (name : String) : AttrValue := s.attributes[name]?.getD .null

def setValue (s : Snapshot) (name : String) (value : AttrValue) : Snapshot :=
  { s with attributes := s.attributes.insert name value }

def withParent (s : Snapshot) (parent : PackageId) : Snapshot :=
  s.setValue Attribute.parent (.link { href := parent.href })

def subject? (s : Snapshot) : Option String := (s.value Attribute.subject).asText?

def parentId? (s : Snapshot) : Option PackageId :=
  (s.value Attribute.parent).asLink?.bind fun link => PackageId.ofHref? link.href

/-- Takes over from an earlier snapshot the attributes that this one leaves out. -/
def retainFrom (s previous : Snapshot) : Snapshot :=
  { s with attributes := previous.attributes ∪ s.attributes }

/-! ## Sameness -/

def untitled (s : Snapshot) : Snapshot := { s with attributes := s.attributes.untitled }

/-- Two snapshots that differ at most in titles of links. -/
def same (a b : Snapshot) : Bool := a.untitled = b.untitled

theorem same_iff {a b : Snapshot} : a.same b = true ↔ a.untitled = b.untitled := by
  simp [same]

/-! ## Small facts -/

theorem value_setValue (s : Snapshot) (name other : String) (value : AttrValue) :
    (s.setValue name value).value other = if name = other then value else s.value other := by
  simp only [Snapshot.value, setValue, Std.ExtTreeMap.getElem?_insert, Std.LawfulEqOrd.compare_eq_iff_eq]
  split <;> rfl

theorem getElem?_retainFrom (s previous : Snapshot) (name : String) :
    (s.retainFrom previous).attributes[name]? = s.attributes[name]?.or previous.attributes[name]? :=
  Std.ExtTreeMap.getElem?_union

end Snapshot

end Draftboard
