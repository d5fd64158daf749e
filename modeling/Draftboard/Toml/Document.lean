import Draftboard.Toml.Scalar
import Draftboard.Toml.Table
/-!
# Reading TOML

A reader for whole TOML documents. The result is the same data as JSON.
-/

namespace Draftboard.Toml

open Json (Step)

/-! ## Values -/

mutual

/-- A value in front of the text; `depth` counts the lists and tables that may still open. -/
def value : Nat → Nat → Step Json
  | 0, _, _ => none
  | fuel + 1, depth, cs =>
    match cs with
    | '"' :: _ | '\'' :: _ => (quoted cs).map fun (s, rest) => (.str s, rest)
    | '[' :: rest => if depth = 0 then none else items fuel (depth - 1) [] rest
    | '\x7b' :: rest =>
      if depth = 0 then none
      else match skipSpace rest with
        | '\x7d' :: rest => some (.obj [], rest)
        | rest => inlineFields fuel (depth - 1) [] rest
    | _ => scalar cs

/-- The items of a list, over as many lines as it takes. -/
def items : Nat → Nat → List Json → Step Json
  | 0, _, _, _ => none
  | fuel + 1, depth, acc, cs =>
    match skipLines cs.length cs with
    | ']' :: rest => some (.arr acc.reverse, rest)
    | rest => do
      let (item, rest) ← value fuel depth rest
      match skipLines rest.length rest with
      | ',' :: rest => items fuel depth (item :: acc) rest
      | ']' :: rest => some (.arr (item :: acc).reverse, rest)
      | _ => none

/-- The fields of a table that is written on one line. -/
def inlineFields : Nat → Nat → Table → Step Json
  | 0, _, _, _ => none
  | fuel + 1, depth, table, cs => do
    let (key, rest) ← key cs
    match rest with
    | '=' :: rest =>
      let (item, rest) ← value fuel depth (skipSpace rest)
      let table ← table.assign? key item
      match skipSpace rest with
      | ',' :: rest => inlineFields fuel depth table rest
      | '\x7d' :: rest => some (table.toJson, rest)
      | _ => none
    | _ => none

end

/-! ## Statements -/

/-- One statement of a document. -/
inductive Statement where
  | header (key : Key)
  /-- A header for one more table of a list. -/
  | listed (key : Key)
  | assignment (key : Key) (content : Json)

def statement (cs : List Char) : Option (Statement × List Char) := do
  match cs with
  | '[' :: '[' :: rest =>
    let (key, rest) ← key rest
    match rest with
    | ']' :: ']' :: rest => some (.listed key, ← endOfLine rest)
    | _ => none
  | '[' :: rest =>
    let (key, rest) ← key rest
    match rest with
    | ']' :: rest => some (.header key, ← endOfLine rest)
    | _ => none
  | _ =>
    let (key, rest) ← key cs
    match rest with
    | '=' :: rest =>
      let (item, rest) ← value (2 * cs.length + 2) 79 (skipSpace rest)
      some (.assignment key item, ← endOfLine rest)
    | _ => none

/-- All statements, one on a line. -/
def statements : Nat → List Char → Option (List Statement)
  | 0, _ => none
  | fuel + 1, cs =>
    match skipLines cs.length cs with
    | [] => some []
    | cs => do
      let (first, rest) ← statement cs
      some (first :: (← statements fuel rest))

/-! ## Documents -/

/-- What a document has defined so far. -/
structure Document where
  root : Table := []
  /-- The path of the table that assignments go to. -/
  current : List String := []

/-- Takes one more statement, unless it clashes with those before it. -/
def Document.add? (d : Document) : Statement → Option Document
  | .header key => (d.root.header? key).map fun root => { root, current := key.path }
  | .listed key => (d.root.listed? key).map fun root => { root, current := key.path }
  | .assignment key content =>
    (d.root.within .implied (fun _ table => table.assign? key content) d.current .header).map
      fun root => { d with root }

/-- Reads a document as one table. -/
def read? (text : String) : Option Json := do
  let cs := match text.toList with
    | '\uFEFF' :: rest => rest
    | cs => cs
  let found ← statements (cs.length + 1) cs
  let document ← found.foldlM Document.add? {}
  some document.root.toJson

end Draftboard.Toml
