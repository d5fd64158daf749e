import Draftboard.Json.Reader
/-!
# The text of TOML

Blanks, comments and ends of lines, and the strings and keys of a document. A reader gives what it
has read and the text that follows.
-/

namespace Draftboard.Toml

open Json (Step)

/-! ## Blanks -/

def isSpace (c : Char) : Bool := c == ' ' || c == '\t'

def skipSpace (cs : List Char) : List Char := cs.dropWhile isSpace

/-- A character that comments and strings may hold: of the control characters only the tab. -/
def isPrintable (c : Char) : Bool := c == '\t' || 0x20 ≤ c.toNat && c.toNat ≠ 0x7F

/-- What follows a line break at the front of the text. -/
def lineBreak : List Char → Option (List Char)
  | '\n' :: rest => some rest
  | '\r' :: '\n' :: rest => some rest
  | _ => none

/-- A comment runs to the end of its line. -/
def skipComment (cs : List Char) : List Char :=
  match cs with
  | '#' :: rest => rest.dropWhile isPrintable
  | _ => cs

/-- What follows the end of a line; a blank or a comment may stand before it. -/
def endOfLine (cs : List Char) : Option (List Char) :=
  match skipComment (skipSpace cs) with
  | [] => some []
  | rest => lineBreak rest

/-- Skips blanks, comments and whole lines, at most `fuel` of them. -/
def skipLines : Nat → List Char → List Char
  | 0, cs => cs
  | fuel + 1, cs =>
    let rest := skipComment (skipSpace cs)
    match lineBreak rest with
    | some rest => skipLines fuel rest
    | none => rest

def skipBlank : List Char → List Char
  | ' ' :: rest | '\t' :: rest | '\n' :: rest => skipBlank rest
  | '\r' :: '\n' :: rest => skipBlank rest
  | cs => cs

/-! ## Strings -/

def unit32 (cs : List Char) : Option (Nat × List Char) := do
  let (high, rest) ← Json.unit16 cs
  let (low, rest) ← Json.unit16 rest
  some (65536 * high + low, rest)

def charOf? (n : Nat) : Option Char := if h : n.isValidChar then some (Char.ofNatAux n h) else none

/-- The character that stands after a backslash. -/
def escape (cs : List Char) : Option (Char × List Char) :=
  match cs with
  | 'u' :: rest => do
    let (n, rest) ← Json.unit16 rest
    some (← charOf? n, rest)
  | 'U' :: rest => do
    let (n, rest) ← unit32 rest
    some (← charOf? n, rest)
  | '/' :: _ => none
  | c :: rest => (Json.plainEscape c).map (·, rest)
  | [] => none

/-- Whether a backslash starts an escape between quotes of a kind. -/
def hasEscapes (quote : Char) : Bool := quote == '"'

/-- The characters of a string on one line up to its closing quote, collected in reverse. -/
def lineBody (quote : Char) : Nat → List Char → Step (List Char)
  | 0, _, _ => none
  | fuel + 1, acc, cs =>
    match cs with
    | [] => none
    | c :: rest =>
      if c = quote then some (acc.reverse, rest)
      else if c = '\\' ∧ hasEscapes quote then do
        let (c, rest) ← escape rest
        lineBody quote fuel (c :: acc) rest
      else if isPrintable c then lineBody quote fuel (c :: acc) rest
      else none

/-- The characters of a string of several lines, collected in reverse. Three quotes close it; of a
longer run up to two of them belong to the string. A backslash at the end of a line takes out the
line break and the blanks after it. -/
def linesBody (quote : Char) : Nat → List Char → Step (List Char)
  | 0, _, _ => none
  | fuel + 1, acc, cs =>
    match cs with
    | [] => none
    | c :: rest =>
      if c = quote then
        let run := (cs.takeWhile (· = quote)).length
        if run < 3 then linesBody quote fuel (List.replicate run quote ++ acc) (cs.drop run)
        else
          let inside := min (run - 3) 2
          some ((List.replicate inside quote ++ acc).reverse, cs.drop (inside + 3))
      else match lineBreak cs with
        | some rest => linesBody quote fuel ('\n' :: acc) rest
        | none =>
          if c = '\\' ∧ hasEscapes quote then
            match lineBreak (skipSpace rest) with
            | some rest => linesBody quote fuel acc (skipBlank rest)
            | none => do
              let (c, rest) ← escape rest
              linesBody quote fuel (c :: acc) rest
          else if isPrintable c then linesBody quote fuel (c :: acc) rest
          else none

def quotedLine (cs : List Char) : Option (String × List Char) :=
  match cs with
  | quote :: rest =>
    if quote = '"' ∨ quote = '\'' then
      (lineBody quote cs.length [] rest).map fun (body, rest) => (String.ofList body, rest)
    else none
  | [] => none

/-- A string on one line, or between three quotes on several; a line break right after the three is
not part of it. -/
def quoted (cs : List Char) : Option (String × List Char) :=
  let lines (quote : Char) (rest : List Char) :=
    (linesBody quote cs.length [] ((lineBreak rest).getD rest)).map fun (body, rest) =>
      (String.ofList body, rest)
  match cs with
  | '"' :: '"' :: '"' :: rest => lines '"' rest
  | '\'' :: '\'' :: '\'' :: rest => lines '\'' rest
  | _ => quotedLine cs

/-! ## Keys -/

/-- A key of one name, or of several with dots between them. -/
structure Key where
  /-- The names in front of the last. -/
  way : List String
  name : String
deriving DecidableEq

def Key.path (key : Key) : List String := key.way ++ [key.name]

def isBare (c : Char) : Bool := c.isAlphanum || c == '_' || c == '-'

def simpleKey (cs : List Char) : Option (String × List Char) :=
  match cs.takeWhile isBare with
  | [] => quotedLine cs
  | name => some (String.ofList name, cs.drop name.length)

/-- A key of at most `most` names, with the blanks around it. -/
def Key.read : Nat → Step Key
  | 0, _ => none
  | most + 1, cs => do
    let (name, rest) ← simpleKey (skipSpace cs)
    match skipSpace rest with
    | '.' :: rest => do
      let (more, rest) ← Key.read most rest
      some ({ more with way := name :: more.way }, rest)
    | rest => some ({ way := [], name }, rest)

/-- A key has at most 79 names. -/
def key (cs : List Char) : Option (Key × List Char) := Key.read 79 cs

end Draftboard.Toml
