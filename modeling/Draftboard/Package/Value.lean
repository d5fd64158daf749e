import Draftboard.Json.Basic
import Draftboard.Calendar.Date
import Draftboard.Text.Characters
/-!
# Attribute values

Values of the attributes of a work package. Two values are the same when they differ at most in
the titles of links: a title is for display only.
-/

namespace Draftboard

/-! ## Links -/

structure Link where
  href : String
  title : Option String := none
deriving DecidableEq, Inhabited

def Link.label (link : Link) : String := link.title.getD link.href

def Link.untitled (link : Link) : Link := { href := link.href }

/-! ## Values -/

inductive AttrValue where
  | null
  | bool (value : Bool)
  | int (value : Int)
  | text (value : String)
  | date (value : Date)
  | link (value : Link)
  | links (values : List Link)
deriving DecidableEq, Inhabited

namespace AttrValue

/-- A value that a required field may not hold. -/
def isBlank : AttrValue → Bool
  | null => true
  | text s => Text.isBlank s
  | links values => values.isEmpty
  | bool _ | int _ | date _ | link _ => false

def asDate? : AttrValue → Option Date
  | date d => some d
  | _ => none

def asLink? : AttrValue → Option Link
  | link l => some l
  | _ => none

def asText? : AttrValue → Option String
  | text s => some s
  | _ => none

def isLinkLike : AttrValue → Bool
  | link _ | links _ => true
  | _ => false

def display : AttrValue → String
  | null => "-"
  | bool b => if b then "true" else "false"
  | int n => toString n
  | text s => s
  | date d => d.text
  | link l => l.label
  | links values => ", ".intercalate (values.map Link.label)

/-! ## Sameness -/

/-- A value without the titles of its links. -/
def untitled : AttrValue → AttrValue
  | link l => link l.untitled
  | links values => links (values.map Link.untitled)
  | v => v

/-- Two values that differ at most in titles. -/
def same (a b : AttrValue) : Bool := a.untitled = b.untitled

theorem same_iff {a b : AttrValue} : a.same b = true ↔ a.untitled = b.untitled := by
  simp [same]

@[simp] theorem same_refl (a : AttrValue) : a.same a = true := by simp [same]

theorem same_comm (a b : AttrValue) : a.same b = b.same a := by
  simp [same, eq_comm]

end AttrValue

/-! ## Attribute maps -/

abbrev Attributes := TextMap AttrValue

namespace Attributes

def untitled (attributes : Attributes) : Attributes := attributes.map fun _ value => value.untitled

def same (a b : Attributes) : Bool := a.untitled = b.untitled

theorem same_iff {a b : Attributes} : a.same b = true ↔ a.untitled = b.untitled := by
  simp [same]

theorem getElem?_untitled (a : Attributes) (name : String) :
    a.untitled[name]? = a[name]?.map AttrValue.untitled :=
  Std.ExtTreeMap.getElem?_map

end Attributes

end Draftboard
