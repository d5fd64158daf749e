import Draftboard.Package.Snapshot
import Draftboard.Package.Schema
/-!
# JSON of work packages

Each type has a writer `toJson` and a reader `ofJson?`. Names that a reader does not know are
passed over.
-/

namespace Draftboard

open Json

/-! ## Scalars -/

def Date.toJson (d : Date) : Json := d.text

def Date.ofJson? (j : Json) : Option Date := j.str?.bind Date.read?

instance : ToJson Date := ⟨Date.toJson⟩
instance : FromJson Date := ⟨Date.ofJson?⟩

def Instant.toJson (t : Instant) : Json := t.text

def Instant.ofJson? (j : Json) : Option Instant := j.str?.bind Instant.read?

instance : ToJson Instant := ⟨Instant.toJson⟩
instance : FromJson Instant := ⟨Instant.ofJson?⟩

def PackageId.toJson (id : PackageId) : Json := id.text

def PackageId.ofJson? (j : Json) : Option PackageId := j.str?.map PackageId.mk

instance : ToJson PackageId := ⟨PackageId.toJson⟩
instance : FromJson PackageId := ⟨PackageId.ofJson?⟩

/-! ## Values -/

/-- A link without a title has no `title`. -/
def Link.toJson (link : Link) : Json :=
  .obj (("href", .str link.href) :: (link.title.map fun title => ("title", .str title)).toList)

def Link.ofJson? (j : Json) : Option Link := do
  let [href, title] ← j.record? ["href", "title"] | none
  let href ← required href
  let title ← nullable title
  some { href, title }

instance : ToJson Link := ⟨Link.toJson⟩
instance : FromJson Link := ⟨Link.ofJson?⟩

def AttrValue.toJson : AttrValue → Json
  | .null => .obj [("kind", "null")]
  | .bool b => .obj [("kind", "bool"), ("value", b)]
  | .int n => .obj [("kind", "int"), ("value", n)]
  | .text s => .obj [("kind", "text"), ("value", s)]
  | .date d => .obj [("kind", "date"), ("value", d)]
  | .link l => .obj [("kind", "link"), ("value", l)]
  | .links ls => .obj [("kind", "links"), ("value", ls)]

/-- The content that a kind of value has; null may go without. -/
def AttrValue.ofContent? (kind : String) (content : Option Json) : Option AttrValue :=
  match kind with
  | "null" => match content with
    | none | some .null => some .null
    | some _ => none
  | "bool" => (required content).map .bool
  | "int" => (required content).map .int
  | "text" => (required content).map .text
  | "date" => (required content).map .date
  | "link" => (required content).map .link
  | "links" => (required content).map .links
  | _ => none

/-- Whether an object has its content before the kind that tells the type of it. -/
def isContentFirst : Json → Bool
  | .obj fields => (fields.find? fun (name, _) => name = "kind" ∨ name = "value").any (·.1 = "value")
  | _ => false

def AttrValue.ofJson? (j : Json) : Option AttrValue := do
  let [kind, content] ← recordFrom? 2 ["kind", "value"] j | none
  let kind ← kind.bind choice?
  if isContentFirst j then AttrValue.ofContent? kind (some (← content.bind held?))
  else AttrValue.ofContent? kind content

instance : ToJson AttrValue := ⟨AttrValue.toJson⟩
instance : FromJson AttrValue := ⟨AttrValue.ofJson?⟩

/-! ## Snapshots -/

def Snapshot.toJson (s : Snapshot) : Json :=
  let fields : List (String × Json) :=
    [("id", s.id), ("lockVersion", s.lockVersion), ("typeHref", s.typeHref),
      ("attributes", s.attributes), ("isLeaf", s.isLeaf), ("readonly", s.readonly)]
  .obj (fields ++ (s.updatedAt.map fun t => ("updatedAt", t.toJson)).toList)

def Snapshot.ofJson? (j : Json) : Option Snapshot := do
  let [id, lockVersion, typeHref, attributes, isLeaf, readonly, updatedAt] ← j.record?
    ["id", "lockVersion", "typeHref", "attributes", "isLeaf", "readonly", "updatedAt"] | none
  let id ← required id
  let lockVersion ← defaulted 0 lockVersion
  let typeHref ← required typeHref
  let attributes ← defaulted ∅ attributes
  let isLeaf ← defaulted true isLeaf
  let readonly ← defaulted false readonly
  let updatedAt ← nullable updatedAt
  some { id, lockVersion, typeHref, attributes, isLeaf, readonly, updatedAt }

instance : ToJson Snapshot := ⟨Snapshot.toJson⟩
instance : FromJson Snapshot := ⟨Snapshot.ofJson?⟩

/-! ## Schemas and forms -/

def FieldKind.toJson (kind : FieldKind) : Json := kind.name

def FieldKind.ofJson? (j : Json) : Option FieldKind :=
  j.choice?.bind fun name => FieldKind.all.find? (·.name = name)

instance : ToJson FieldKind := ⟨FieldKind.toJson⟩
instance : FromJson FieldKind := ⟨FieldKind.ofJson?⟩

def FieldSchema.toJson (f : FieldSchema) : Json :=
  .obj [("writable", f.writable), ("required", f.required), ("kind", f.kind)]

def FieldSchema.ofJson? (j : Json) : Option FieldSchema := do
  let [writable, mandatory, kind] ← j.record? ["writable", "required", "kind"] | none
  let writable ← defaulted false writable
  let mandatory ← defaulted false mandatory
  let kind ← defaulted .text kind
  some { writable, required := mandatory, kind }

instance : ToJson FieldSchema := ⟨FieldSchema.toJson⟩
instance : FromJson FieldSchema := ⟨FieldSchema.ofJson?⟩

def Schema.toJson (s : Schema) : Json := .obj [("typeHref", s.typeHref), ("fields", s.fields)]

def Schema.ofJson? (j : Json) : Option Schema := do
  let [typeHref, fields] ← j.record? ["typeHref", "fields"] | none
  let typeHref ← required typeHref
  let fields ← defaulted ∅ fields
  some { typeHref, fields }

instance : ToJson Schema := ⟨Schema.toJson⟩
instance : FromJson Schema := ⟨Schema.ofJson?⟩

def Form.toJson (f : Form) : Json :=
  .obj [("payload", f.payload), ("validationErrors", f.validationErrors)]

def Form.ofJson? (j : Json) : Option Form := do
  let [payload, validationErrors] ← j.record? ["payload", "validationErrors"] | none
  let payload ← defaulted ∅ payload
  let validationErrors ← defaulted ∅ validationErrors
  some { payload, validationErrors }

instance : ToJson Form := ⟨Form.toJson⟩
instance : FromJson Form := ⟨Form.ofJson?⟩

end Draftboard
