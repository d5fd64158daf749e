import Draftboard.Package.Codec
/-!
# Payloads

What a save submits: the lock version it is based on, plain attributes, and links.
-/

namespace Draftboard

structure Payload where
  lockVersion : Nat
  attributes : Attributes := ∅
  links : Attributes := ∅
deriving DecidableEq, Inhabited

namespace Payload

/-- Whether a value belongs among the links: its field decides, or its shape if there is none. -/
def isLink (schema : Schema) (name : String) (value : AttrValue) : Bool :=
  match schema.get? name with
  | some field => field.kind.isLink
  | none => value.isLinkLike

/-- Puts a value on the side where it belongs, in place of an earlier one on either side. -/
def place (schema : Schema) (p : Payload) (name : String) (value : AttrValue) : Payload :=
  if isLink schema name value then
    { p with attributes := p.attributes.erase name, links := p.links.insert name value }
  else
    { p with attributes := p.attributes.insert name value, links := p.links.erase name }

def placeAll (schema : Schema) (p : Payload) (values : Attributes) : Payload :=
  values.toList.foldl (fun p (name, value) => p.place schema name value) p

def get? (p : Payload) (name : String) : Option AttrValue :=
  p.attributes[name]?.or p.links[name]?

def entries (p : Payload) : List (String × AttrValue) := p.attributes.toList ++ p.links.toList

def size (p : Payload) : Nat := p.attributes.size + p.links.size

def isEmpty (p : Payload) : Bool := p.size = 0

/-- One flat object; links stand under one name, which is left out when there are none. -/
def toJson (p : Payload) : Json :=
  let version : String × Json := ("lockVersion", p.lockVersion)
  let attributes := p.attributes.toList.map fun (name, value) => (name, value.toJson)
  let links : List (String × Json) := if p.links.isEmpty then [] else [("_links", p.links)]
  .obj (version :: attributes ++ links)

theorem get?_place (schema : Schema) (p : Payload) (name other : String) (value : AttrValue) :
    (place schema p name value).get? other = if name = other then some value else p.get? other := by
  unfold place
  split <;>
  · simp only [get?, Std.ExtTreeMap.getElem?_insert, Std.ExtTreeMap.getElem?_erase,
      Std.LawfulEqOrd.compare_eq_iff_eq]
    split <;> simp

end Payload

end Draftboard
