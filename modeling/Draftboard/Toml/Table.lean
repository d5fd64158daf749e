import Draftboard.Toml.Text
/-!
# Tables of TOML

A document builds its tables piece by piece. A table remembers how it came to be, since that decides
what may still be added to it: a name is given once only, and a header names a table once only.
-/

namespace Draftboard.Toml

/-! ## Entries -/

/-- How a table came to be. -/
inductive Origin where
  /-- A header names it. -/
  | header
  /-- It lies on the way to a table that a header names. -/
  | implied
  /-- A key with dots leads through it. -/
  | dotted
deriving DecidableEq

/-- What a name of a table stands for. -/
inductive Entry where
  | value (content : Json)
  | table (origin : Origin) (fields : List (String × Entry))
  /-- Tables that one header lists; the last of them is apart, and the others come latest first. -/
  | tables (last : List (String × Entry)) (earlier : List (List (String × Entry)))

abbrev Table := List (String × Entry)

namespace Table

/-- Changes what a name stands for; a new name comes last. -/
def alter? (name : String) (change : Option Entry → Option Entry) : Table → Option Table
  | [] => (change none).map fun entry => [(name, entry)]
  | (other, entry) :: rest =>
    if other = name then (change (some entry)).map fun entry => (other, entry) :: rest
    else (alter? name change rest).map ((other, entry) :: ·)

/-- Changes the table at the end of a path, and makes those that are missing on the way. No key with
dots leads through a table that has a header, or through a value. -/
def within (made : Origin) (change : Origin → Table → Option Table) :
    List String → Origin → Table → Option Table
  | [], origin, table => change origin table
  | name :: path, _, table => table.alter? name fun
    | none => (within made change path made []).map (.table made)
    | some (.value _) => none
    | some (.table origin inner) =>
      if made = .dotted ∧ origin = .header then none
      else (within made change path origin inner).map (.table origin)
    | some (.tables last earlier) =>
      (within made change path .header last).map (.tables · earlier)

/-- Gives a key its value. The name has to be new, and a key with dots adds only to a table that was
made by dots. -/
def assign? (key : Key) (content : Json) (table : Table) : Option Table :=
  table.within .dotted
    (fun origin inner =>
      if key.way = [] ∨ origin = .dotted then
        inner.alter? key.name fun
          | none => some (.value content)
          | some _ => none
      else none)
    key.way .header

/-- Makes the table that a header names; a table that was only implied becomes that one. -/
def header? (key : Key) (table : Table) : Option Table :=
  table.within .implied
    (fun _ inner => inner.alter? key.name fun
      | none => some (.table .header [])
      | some (.table .implied fields) => some (.table .header fields)
      | some _ => none)
    key.way .header

/-- Adds a table to those that a header lists. -/
def listed? (key : Key) (table : Table) : Option Table :=
  table.within .implied
    (fun _ inner => inner.alter? key.name fun
      | none => some (.tables [] [])
      | some (.tables last earlier) => some (.tables [] (last :: earlier))
      | some _ => none)
    key.way .header

end Table

/-! ## Values -/

mutual

def Entry.toJson : Entry → Json
  | .value content => content
  | .table _ fields => .obj (fieldsToJson fields)
  | .tables last earlier => .arr (.obj (fieldsToJson last) :: listToJson earlier).reverse

def fieldsToJson : List (String × Entry) → List (String × Json)
  | [] => []
  | (name, entry) :: rest => (name, entry.toJson) :: fieldsToJson rest

def listToJson : List (List (String × Entry)) → List Json
  | [] => []
  | fields :: rest => .obj (fieldsToJson fields) :: listToJson rest

end

def Table.toJson (table : Table) : Json := .obj (fieldsToJson table)

/-! ## Small facts -/

end Draftboard.Toml
