import Draftboard.Json.Basic
import Draftboard.Decimal.Reading
/-!
# Reading JSON text

A reader for the whole of JSON text: one value with blanks around it. Whole numbers that fit 64
bits stay whole, others become floats by their significand. What is well formed but past the range
of floats, or has a lone surrogate, or is nested more than 127 deep, is unfit. The strict reader
refuses a text with anything unfit in it.
-/

namespace Draftboard.Json

/-- A reader gives a value and the text that follows it. -/
abbrev Step (α : Type) := List Char → Option (α × List Char)

def isSpace (c : Char) : Bool := c == ' ' || c == '\n' || c == '\t' || c == '\r'

def skipSpace (cs : List Char) : List Char := cs.dropWhile isSpace

/-! ## Strings -/

def hexValue (c : Char) : Option Nat :=
  if '0' ≤ c ∧ c ≤ '9' then some (c.toNat - '0'.toNat)
  else if 'a' ≤ c ∧ c ≤ 'f' then some (c.toNat - 'a'.toNat + 10)
  else if 'A' ≤ c ∧ c ≤ 'F' then some (c.toNat - 'A'.toNat + 10)
  else none

def unit16 : Step Nat
  | a :: b :: c :: d :: rest => do
    let a ← hexValue a
    let b ← hexValue b
    let c ← hexValue c
    let d ← hexValue d
    some (4096 * a + 256 * b + 16 * c + d, rest)
  | _ => none

def isHighSurrogate (n : Nat) : Bool := 0xD800 ≤ n && n < 0xDC00

def isLowSurrogate (n : Nat) : Bool := 0xDC00 ≤ n && n < 0xE000

/-- The low surrogate that an escape at the front stands for. -/
def lowSurrogate (cs : List Char) : Option (Nat × List Char) :=
  match cs with
  | '\\' :: 'u' :: rest => (unit16 rest).filter fun (low, _) => isLowSurrogate low
  | _ => none

/-- The character that stands after `\u`, and none for a surrogate that is not one of a pair. -/
def unicodeEscape (cs : List Char) : Option (Option Char × List Char) := do
  let (unit, rest) ← unit16 cs
  if isHighSurrogate unit then
    match lowSurrogate rest with
    | some (low, rest) =>
      some (some (Char.ofNat (0x10000 + (unit - 0xD800) * 0x400 + (low - 0xDC00))), rest)
    | none => some (none, rest)
  else if isLowSurrogate unit then some (none, rest)
  else some (some (Char.ofNat unit), rest)

def plainEscape : Char → Option Char
  | '"' => some '"'
  | '\\' => some '\\'
  | '/' => some '/'
  | 'b' => some '\x08'
  | 'f' => some '\x0c'
  | 'n' => some '\n'
  | 'r' => some '\r'
  | 't' => some '\t'
  | _ => none

/-- The characters up to the closing quote, collected in reverse; none once one of them is no
character. -/
def stringBody : Nat → Option (List Char) → Step (Option (List Char))
  | 0, _, _ => none
  | fuel + 1, acc, cs =>
    match cs with
    | [] => none
    | '"' :: rest => some (acc.map List.reverse, rest)
    | '\\' :: 'u' :: rest => do
      let (c, rest) ← unicodeEscape rest
      stringBody fuel (acc.bind fun acc => c.map (· :: acc)) rest
    | '\\' :: e :: rest => do
      let c ← plainEscape e
      stringBody fuel (acc.map (c :: ·)) rest
    | c :: rest =>
      if c.toNat < 0x20 ∨ c = '\\' then none else stringBody fuel (acc.map (c :: ·)) rest

/-- The text that stands after an opening quote, and none for one that is unfit. -/
def stringText (cs : List Char) : Option (Option String × List Char) :=
  (stringBody (cs.length + 1) (some []) cs).map fun (body, rest) => (body.map String.ofList, rest)

/-! ## Numbers -/

/-- Digits of a whole number: one zero, or a run that starts with another digit. -/
def wholeDigits (cs : List Char) : Option (List Char × List Char) :=
  match cs with
  | '0' :: rest => if rest.head?.any Decimal.isDigit then none else some (['0'], rest)
  | _ => match Decimal.spanDigits cs with
    | ([], _) => none
    | found => some found

def fractionDigits : Step (List Char)
  | '.' :: rest => match Decimal.spanDigits rest with
    | ([], _) => none
    | found => some found
  | cs => some ([], cs)

/-- An exponent, or `none` inside when there is none. -/
def exponent (cs : List Char) : Option (Option Int × List Char) :=
  let digits (negative : Bool) (rest : List Char) :=
    match Decimal.spanDigits rest with
    | ([], _) => none
    | (ds, rest) =>
      let n : Int := Decimal.valueOf ds
      some (some (if negative then -n else n), rest)
  match cs with
  | e :: rest =>
    if e = 'e' ∨ e = 'E' then
      match rest with
      | '-' :: rest => digits true rest
      | '+' :: rest => digits false rest
      | _ => digits false rest
    else some (none, cs)
  | [] => some (none, [])

/-- A whole number that fits 64 bits stays whole, unless it is a zero with a sign. -/
def numberValue (negative : Bool) (whole fraction : List Char) (exp : Option Int) : Json :=
  let digits := Decimal.valueOf whole
  let n : Int := if negative then -digits else digits
  if fraction = [] ∧ exp = none ∧ ¬(negative ∧ digits = 0) ∧
      Int64.minValue.toInt ≤ n ∧ n < UInt64.size then .int n
  else (Decimal.scaled? negative whole fraction (exp.getD 0)).elim .unfit .real

def number (cs : List Char) : Option (Json × List Char) := do
  let (negative, cs) := match cs with
    | '-' :: rest => (true, rest)
    | _ => (false, cs)
  let (whole, cs) ← wholeDigits cs
  let (fraction, cs) ← fractionDigits cs
  let (exp, cs) ← exponent cs
  some (numberValue negative whole fraction exp, cs)

/-! ## Values -/

def keyword (word : List Char) (value : Json) (cs : List Char) : Option (Json × List Char) :=
  if word.isPrefixOf cs then some (value, cs.drop word.length) else none

def leaf (cs : List Char) : Option (Json × List Char) :=
  match cs with
  | '"' :: rest => (stringText rest).map fun (s, rest) => (s.elim .unfit .str, rest)
  | 'n' :: rest => keyword ['u', 'l', 'l'] .null rest
  | 't' :: rest => keyword ['r', 'u', 'e'] (.bool true) rest
  | 'f' :: rest => keyword ['a', 'l', 's', 'e'] (.bool false) rest
  | _ => number cs

/-- The name of a field and the colon after it; none for a name that is unfit. -/
def fieldName (cs : List Char) : Option (Option String × List Char) :=
  match skipSpace cs with
  | '"' :: rest => do
    let (name, rest) ← stringText rest
    match skipSpace rest with
    | ':' :: rest => some (name, rest)
    | _ => none
  | _ => none

/-- Passes over a value, however deep it is nested. `closers` are the brackets that have to close,
the innermost first; `ended` tells that a value has just ended. -/
def skim : Nat → Bool → List Char → List Char → Option (List Char)
  | 0, _, _, _ => none
  | _, true, [], cs => some cs
  | fuel + 1, true, closer :: closers, cs =>
    match skipSpace cs with
    | ',' :: rest =>
      if closer = '}' then do
        let (_, rest) ← fieldName rest
        skim fuel false (closer :: closers) rest
      else skim fuel false (closer :: closers) rest
    | c :: rest => if c = closer then skim fuel true closers rest else none
    | [] => none
  | fuel + 1, false, closers, cs =>
    match skipSpace cs with
    | '[' :: rest =>
      match skipSpace rest with
      | ']' :: rest => skim fuel true closers rest
      | rest => skim fuel false (']' :: closers) rest
    | '{' :: rest =>
      match skipSpace rest with
      | '}' :: rest => skim fuel true closers rest
      | rest => do
        let (_, rest) ← fieldName rest
        skim fuel false ('}' :: closers) rest
    | rest => do
      let (_, rest) ← leaf rest
      skim fuel true closers rest

def skimmed (fuel : Nat) (cs : List Char) : Option (Json × List Char) :=
  (skim fuel false [] cs).map fun rest => (.unfit, rest)

/-- An object from its fields in reverse; with an unfit name among them it is unfit. -/
def objectOf (fields : Option (List (String × Json))) : Json :=
  fields.elim .unfit fun fields => .obj fields.reverse

mutual

/-- A value in front of the text; `depth` counts the containers that may still open. -/
def value : Nat → Nat → Step Json
  | 0, _, _ => none
  | fuel + 1, depth, cs =>
    match skipSpace cs with
    | '[' :: inner =>
      if depth = 0 then skimmed (fuel + 1) cs
      else match skipSpace inner with
        | ']' :: rest => some (.arr [], rest)
        | inner => items fuel (depth - 1) [] inner
    | '{' :: inner =>
      if depth = 0 then skimmed (fuel + 1) cs
      else match skipSpace inner with
        | '}' :: rest => some (.obj [], rest)
        | inner => fields fuel (depth - 1) (some []) inner
    | rest => leaf rest

/-- The items of a list up to its end, collected in reverse. -/
def items : Nat → Nat → List Json → Step Json
  | 0, _, _, _ => none
  | fuel + 1, depth, acc, cs => do
    let (item, rest) ← value fuel depth cs
    match skipSpace rest with
    | ',' :: rest => items fuel depth (item :: acc) rest
    | ']' :: rest => some (.arr (item :: acc).reverse, rest)
    | _ => none

/-- The fields of an object up to its end, collected in reverse; none once a name is unfit. -/
def fields : Nat → Nat → Option (List (String × Json)) → Step Json
  | 0, _, _, _ => none
  | fuel + 1, depth, acc, cs => do
    let (name, rest) ← fieldName cs
    let (item, rest) ← value fuel depth rest
    let acc := acc.bind fun acc => name.map fun name => (name, item) :: acc
    match skipSpace rest with
    | ',' :: rest => fields fuel depth acc rest
    | '}' :: rest => some (objectOf acc, rest)
    | _ => none

end

/-- Reads a text that holds one well-formed value and nothing else but blanks. -/
def readLoosely? (text : String) : Option Json :=
  let cs := text.toList
  match value (2 * cs.length + 2) 127 cs with
  | some (j, rest) => if skipSpace rest = [] then some j else none
  | none => none

/-- Reads a text all of which is fit. -/
def read? (text : String) : Option Json := (readLoosely? text).filter (·.isFit)

end Draftboard.Json
