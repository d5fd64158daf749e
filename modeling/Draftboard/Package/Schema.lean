import Draftboard.Package.Value
/-!
# Schemas and forms

What a type of work package allows in its fields, and the answer of the server's form.
-/

namespace Draftboard

/-! ## Fields -/

inductive FieldKind where
  | text
  | int
  | bool
  | date
  | link
  | links
deriving DecidableEq, Inhabited

namespace FieldKind

def all : List FieldKind := [text, int, bool, date, link, links]

def name : FieldKind → String
  | text => "text"
  | int => "int"
  | bool => "bool"
  | date => "date"
  | link => "link"
  | links => "links"

/-- Null fits every kind; any other value has to have the shape of the kind. -/
def accepts : FieldKind → AttrValue → Bool
  | _, .null => true
  | text, .text _ => true
  | int, .int _ => true
  | bool, .bool _ => true
  | date, .date _ => true
  | link, .link _ => true
  | links, .links _ => true
  | _, _ => false

/-- Kinds that a payload carries among its links. -/
def isLink : FieldKind → Bool
  | link | links => true
  | text | int | bool | date => false

end FieldKind

structure FieldSchema where
  writable : Bool := false
  required : Bool := false
  kind : FieldKind := .text
deriving DecidableEq, Inhabited

/-! ## Schemas -/

structure Schema where
  typeHref : String
  fields : TextMap FieldSchema := ∅
deriving DecidableEq, Inhabited

namespace Schema

def get? (schema : Schema) (name : String) : Option FieldSchema := schema.fields[name]?

/-- An unknown field is not writable. -/
def isWritable (schema : Schema) (name : String) : Bool := (schema.get? name).any (·.writable)

def requiredFields (schema : Schema) : List String :=
  (schema.fields.toList.filter (·.2.required)).map (·.1)

theorem mem_requiredFields {schema : Schema} {name : String} :
    name ∈ schema.requiredFields ↔ ∃ field, schema.get? name = some field ∧ field.required = true := by
  simp only [requiredFields, List.mem_map, List.mem_filter, Prod.exists, exists_and_right,
    exists_eq_right, get?, Std.ExtTreeMap.mem_toList_iff_getElem?_eq_some]

end Schema

/-! ## Forms -/

/-- The answer of the server's form: default values and messages about fields. -/
structure Form where
  payload : Attributes := ∅
  validationErrors : TextMap (List String) := ∅
deriving DecidableEq, Inhabited

end Draftboard
