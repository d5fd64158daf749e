import Draftboard.Changeset.Basic
/-!
# Defaults from query filters

A work package made inside a filtered list should match the filters of the list, so each `=`
filter gives its attribute a value. A value that matches already stays.
-/

namespace Draftboard

/-! ## Filters -/

inductive FilterOperator where
  | equals
  | notEquals
  | contains
  | any
  | none
deriving DecidableEq, Inhabited

namespace FilterOperator

def all : List FilterOperator := [equals, notEquals, contains, any, none]

def symbol : FilterOperator → String
  | equals => "="
  | notEquals => "!"
  | contains => "~"
  | any => "*"
  | none => "!*"

def toJson (op : FilterOperator) : Json := op.symbol

def ofJson? (j : Json) : Option FilterOperator :=
  j.choice?.bind fun symbol => all.find? (·.symbol = symbol)

instance : ToJson FilterOperator := ⟨toJson⟩
instance : FromJson FilterOperator := ⟨ofJson?⟩

end FilterOperator

structure Filter where
  name : String
  operator : FilterOperator
  values : List AttrValue := []
deriving DecidableEq, Inhabited

namespace Filter

def toJson (f : Filter) : Json :=
  .obj [("attribute", f.name), ("operator", f.operator), ("values", f.values)]

def ofJson? (j : Json) : Option Filter := do
  let [name, operator, values] ← j.record? ["attribute", "operator", "values"] | none
  let name ← Json.required name
  let operator ← Json.required operator
  let values ← Json.defaulted [] values
  some { name, operator, values }

instance : ToJson Filter := ⟨toJson⟩
instance : FromJson Filter := ⟨ofJson?⟩

/-! ## Defaults -/

/-- Whether a value is among the values of a filter; of a list of links, whether one link is. -/
def matchesAny (values : List AttrValue) : AttrValue → Bool
  | .null => false
  | .links links => links.any fun link => values.any fun v => v.asLink?.any (·.href = link.href)
  | value => values.any value.same

/-- The value that a filter asks for: its links for a field of links, else its first value. -/
def defaultValue? (f : Filter) (schema : Schema) : Option AttrValue :=
  if (schema.get? f.name).any (·.kind = .links) then
    if f.values = [] then none else some (.links (f.values.filterMap AttrValue.asLink?))
  else f.values.head?

/-- Whether a filter has something to say about a change-set. -/
def applies (f : Filter) (schema : Schema) (c : Changeset) : Bool :=
  f.operator = .equals && f.values ≠ [] && c.isWritable f.name schema &&
    !matchesAny f.values (c.value f.name)

end Filter

namespace Changeset

def applyFilter (schema : Schema) (c : Changeset) (f : Filter) : Changeset × Bool :=
  if f.applies schema c then
    match f.defaultValue? schema with
    | some value => (c.setValue f.name value, true)
    | none => (c, false)
  else (c, false)

/-- Applies filters in order, and counts those that wrote a value. -/
def applyFilters (schema : Schema) (c : Changeset) (filters : List Filter) : Changeset × Nat :=
  filters.foldl
    (fun (c, count) f =>
      let (c, wrote) := c.applyFilter schema f
      (c, if wrote then count + 1 else count))
    (c, 0)

end Changeset

end Draftboard
