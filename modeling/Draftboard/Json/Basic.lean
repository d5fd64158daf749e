import Std.Data.ExtTreeMap
import Std.Data.ExtTreeMap.Lemmas
/-!
# JSON values

The value type, and the small readers that the decoders of the library are built from. An object
keeps its fields in order, repeated names included; a whole number is told apart from a float.
Some well-formed text stands for no value that could be read; it is kept as `unfit`, since a
decoder that passes a field over does not ask what the field holds.
-/

namespace Draftboard

/-- A map with text keys, ordered by code point. -/
abbrev TextMap (α : Type) := Std.ExtTreeMap String α

instance : DecidableEq (TextMap (List String)) := inferInstance

inductive Json where
  | null
  | bool (value : Bool)
  | int (value : Int)
  | real (value : Float)
  | str (value : String)
  | arr (items : List Json)
  | obj (fields : List (String × Json))
  /-- Text that is well formed and has no value: it holds half of a surrogate pair, or a number past
  the range of floats, or it is nested too deep. -/
  | unfit
deriving Inhabited

namespace Json

/-! ## Reading -/

def str? : Json → Option String
  | .str s => some s
  | _ => none

def bool? : Json → Option Bool
  | .bool b => some b
  | _ => none

/-- A whole number that fits 64 bits with a sign. -/
def int64? : Json → Option Int
  | .int n => if Int64.minValue.toInt ≤ n ∧ n ≤ Int64.maxValue.toInt then some n else none
  | _ => none

/-- A whole number that fits 64 bits without a sign. -/
def nat64? : Json → Option Nat
  | .int n => if 0 ≤ n ∧ n < UInt64.size then some n.toNat else none
  | _ => none

def float? : Json → Option Float
  | .int n => some (Float.ofInt n)
  | .real x => some x
  | _ => none

/-- The name of a plain choice: a text, or an object with that one name and no content. -/
def choice? : Json → Option String
  | .str s => some s
  | .obj [(s, .null)] => some s
  | _ => none

def list? {α : Type} (f : Json → Option α) : Json → Option (List α)
  | .arr items => items.mapM f
  | _ => none

/-- Reads an object as a map; of a repeated name the last value stays. -/
def map? {α : Type} (f : Json → Option α) : Json → Option (TextMap α)
  | .obj fields => fields.foldlM (fun m (name, value) => (f value).map (m.insert name)) ∅
  | _ => none

/-- The value that a field has; of a repeated name the last. -/
def field? (name : String) : Json → Option Json
  | .obj fields => (fields.reverse.find? (·.1 = name)).map (·.2)
  | _ => none

/-! ## Whole values -/

mutual

/-- Whether every part of a value can be read. -/
def isFit : Json → Bool
  | .unfit => false
  | .arr items => areFit items
  | .obj fields => areFieldsFit fields
  | .null | .bool _ | .int _ | .real _ | .str _ => true

def areFit : List Json → Bool
  | [] => true
  | j :: rest => j.isFit && areFit rest

def areFieldsFit : List (String × Json) → Bool
  | [] => true
  | (_, j) :: rest => j.isFit && areFieldsFit rest

end

mutual

/-- A value with `null` for the content of each choice that has an empty object for it. -/
def withPlainChoices : Json → Json
  | .obj [(name, .obj [])] => .obj [(name, .null)]
  | .arr items => .arr (itemsWithPlainChoices items)
  | .obj fields => .obj (fieldsWithPlainChoices fields)
  | j => j

def itemsWithPlainChoices : List Json → List Json
  | [] => []
  | j :: rest => j.withPlainChoices :: itemsWithPlainChoices rest

def fieldsWithPlainChoices : List (String × Json) → List (String × Json)
  | [] => []
  | (name, j) :: rest => (name, j.withPlainChoices) :: fieldsWithPlainChoices rest

end

/-- A value that is taken in before its type is known. All of it has to be fit, and a choice in it
may have an empty object for content. -/
def held? (j : Json) : Option Json := if j.isFit then some j.withPlainChoices else none

mutual

/-- A value whose objects have each name once, in order; of a repeated name the last value stays. -/
def settled : Json → Json
  | .arr items => .arr (settledItems items)
  | .obj fields => .obj (settledFields fields).toList
  | j => j

def settledItems : List Json → List Json
  | [] => []
  | j :: rest => j.settled :: settledItems rest

def settledFields : List (String × Json) → TextMap Json
  | [] => ∅
  | (name, j) :: rest => (settledFields rest).insertIfNew name j.settled

end

/-! ## Records

A record is an object with known names, each at most once, or the list of its values in the order
of the names. -/

/-- The values stored under one name, or `none` when the name is repeated. -/
def single? (name : String) (fields : List (String × Json)) : Option (Option Json) :=
  match fields.filter (·.1 = name) with
  | [] => some none
  | [(_, value)] => some (some value)
  | _ => none

/-- The values of a record, one for each name; `none` stands for a field that is absent. A list
holds at least the first `least` values. -/
def recordFrom? (least : Nat) (names : List String) : Json → Option (List (Option Json))
  | .obj fields => names.mapM fun name => single? name fields
  | .arr items =>
    if least ≤ items.length ∧ items.length ≤ names.length then
      some (items.map some ++ List.replicate (names.length - items.length) none)
    else none
  | _ => none

/-- The values of a record; a list may stop after any of them. -/
def record? (j : Json) (names : List String) : Option (List (Option Json)) := recordFrom? 0 names j

end Json

/-! ## Types with a writer -/

class ToJson (α : Type) where
  toJson : α → Json

export ToJson (toJson)

/-- A value stands for its JSON where JSON is wanted. -/
instance {α : Type} [ToJson α] : CoeOut α Json := ⟨toJson⟩

instance : ToJson Json := ⟨id⟩
instance : ToJson Bool := ⟨.bool⟩
instance : ToJson Int := ⟨.int⟩
instance : ToJson Nat := ⟨fun n => .int n⟩
instance : ToJson Float := ⟨.real⟩
instance : ToJson String := ⟨.str⟩

/-- Nothing is written as `null`. -/
instance {α : Type} [ToJson α] : ToJson (Option α) := ⟨fun a => a.elim .null toJson⟩

instance {α : Type} [ToJson α] : ToJson (List α) := ⟨fun items => .arr (items.map toJson)⟩

instance {α : Type} [ToJson α] : ToJson (TextMap α) :=
  ⟨fun m => .obj (m.toList.map fun (name, value) => (name, toJson value))⟩

/-! ## Types with a reader -/

class FromJson (α : Type) where
  ofJson? : Json → Option α

export FromJson (ofJson?)

instance : FromJson Bool := ⟨Json.bool?⟩
instance : FromJson Int := ⟨Json.int64?⟩
instance : FromJson Nat := ⟨Json.nat64?⟩
instance : FromJson Float := ⟨Json.float?⟩
instance : FromJson String := ⟨Json.str?⟩
instance {α : Type} [FromJson α] : FromJson (List α) := ⟨Json.list? ofJson?⟩
instance {α : Type} [FromJson α] : FromJson (TextMap α) := ⟨Json.map? ofJson?⟩

namespace Json

variable {α : Type} [FromJson α]

def required (value : Option Json) : Option α := value.bind ofJson?

/-- A field that may be absent; `null` is no value of it. -/
def defaulted (default : α) : Option Json → Option α
  | none => some default
  | some j => ofJson? j

/-- A field that may be absent or `null`. -/
def nullable : Option Json → Option (Option α)
  | none | some .null => some none
  | some j => (ofJson? j).map some

end Json

end Draftboard
