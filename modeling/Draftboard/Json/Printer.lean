import Draftboard.Json.Basic
import Draftboard.Decimal.Shortest
/-!
# Printing JSON text

Text of a JSON value, on one line or with an indent of two spaces.
-/

namespace Draftboard.Json

def hexDigit (n : Nat) : Char := (Nat.toDigits 16 n).headD '0'

def escaped (c : Char) : List Char :=
  match c with
  | '"' => ['\\', '"']
  | '\\' => ['\\', '\\']
  | '\n' => ['\\', 'n']
  | '\r' => ['\\', 'r']
  | '\t' => ['\\', 't']
  | '\x08' => ['\\', 'b']
  | '\x0c' => ['\\', 'f']
  | c =>
    if c.toNat < 0x20 then ['\\', 'u', '0', '0', hexDigit (c.toNat / 16), hexDigit (c.toNat % 16)]
    else [c]

def quoted (s : String) : String := String.ofList ('"' :: s.toList.flatMap escaped ++ ['"'])

mutual

def compact : Json → String
  | .null | .unfit => "null"
  | .bool b => if b then "true" else "false"
  | .int n => toString n
  | .real x => Decimal.jsonText x
  | .str s => quoted s
  | .arr items => "[" ++ ",".intercalate (compactItems items) ++ "]"
  | .obj fields => "\x7b" ++ ",".intercalate (compactFields fields) ++ "\x7d"

def compactItems : List Json → List String
  | [] => []
  | j :: rest => compact j :: compactItems rest

def compactFields : List (String × Json) → List String
  | [] => []
  | (name, j) :: rest => (quoted name ++ ":" ++ compact j) :: compactFields rest

end

def indent (depth : Nat) : String := String.ofList ('\n' :: List.replicate (2 * depth) ' ')

/-- Lines of a container, one entry a line, between two brackets. -/
def block (depth : Nat) (first last : String) (entries : List String) : String :=
  if entries = [] then first ++ last
  else first ++ ",".intercalate (entries.map (indent (depth + 1) ++ ·)) ++ indent depth ++ last

mutual

/-- Text with one entry a line. -/
def pretty (depth : Nat) : Json → String
  | .arr items => block depth "[" "]" (prettyItems (depth + 1) items)
  | .obj fields => block depth "\x7b" "\x7d" (prettyFields (depth + 1) fields)
  | j => compact j

def prettyItems (depth : Nat) : List Json → List String
  | [] => []
  | j :: rest => pretty depth j :: prettyItems depth rest

def prettyFields (depth : Nat) : List (String × Json) → List String
  | [] => []
  | (name, j) :: rest => (quoted name ++ ": " ++ pretty depth j) :: prettyFields depth rest

end

end Draftboard.Json
