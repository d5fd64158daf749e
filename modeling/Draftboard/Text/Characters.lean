/-!
# Characters

The blank characters of a text and trimming by them, columns, and the decimal digits: the value of a run
of digits, and splitting a text after one.
-/

namespace Draftboard

/-! ## Blank characters -/

namespace Text

/-- The 25 characters with the property `White_Space`. -/
def isBlankChar (c : Char) : Bool :=
  let n := c.toNat
  (0x09 ≤ n && n ≤ 0x0D) || n == 0x20 || n == 0x85 || n == 0xA0 || n == 0x1680 ||
    (0x2000 ≤ n && n ≤ 0x200A) || n == 0x2028 || n == 0x2029 || n == 0x202F || n == 0x205F ||
    n == 0x3000

/-- A blank text holds blank characters only, or none at all. -/
def isBlank (s : String) : Bool := s.toList.all isBlankChar

def trimStart (cs : List Char) : List Char := cs.dropWhile isBlankChar

def trim (s : String) : String :=
  String.ofList (trimStart (trimStart s.toList).reverse).reverse

/-! ## Columns -/

/-- Fills up a text with spaces on the right; a longer text stays as it is. -/
def padRight (width : Nat) (s : String) : String :=
  s ++ String.ofList (List.replicate (width - s.length) ' ')

def padLeft (width : Nat) (s : String) : String :=
  String.ofList (List.replicate (width - s.length) ' ') ++ s

end Text

/-! ## Decimal digits -/

namespace Decimal

def isDigit (c : Char) : Bool := '0' ≤ c && c ≤ '9'

def digitValue (c : Char) : Nat := c.toNat - '0'.toNat

/-- The number that a run of digits writes; a first digit counts most. -/
def valueOf (digits : List Char) : Nat := digits.foldl (fun n c => 10 * n + digitValue c) 0

/-- The digits at the front of a text, and what follows them. -/
def spanDigits (cs : List Char) : List Char × List Char := (cs.takeWhile isDigit, cs.dropWhile isDigit)

/-- The number a text writes if it holds nothing but digits, at least one. -/
def natOf? (cs : List Char) : Option Nat :=
  if cs ≠ [] ∧ cs.all isDigit then some (valueOf cs) else none

/-- Writes a number with at least `width` digits, with zeros in front. -/
def padded (width n : Nat) : String :=
  let digits := toString n
  String.ofList (List.replicate (width - digits.length) '0') ++ digits

theorem isDigit_of_mem_span {cs : List Char} {c : Char} (h : c ∈ (spanDigits cs).1) :
    isDigit c = true := by
  have := List.all_takeWhile (p := isDigit) (l := cs)
  exact List.all_eq_true.1 this c h

theorem valueOf_eq_ofDigitChars (cs : List Char) : valueOf cs = Nat.ofDigitChars 10 cs 0 := rfl

theorem isDigit_of_mem_toDigits {n : Nat} {c : Char} (h : c ∈ Nat.toDigits 10 n) : isDigit c = true := by
  have hd := Nat.isDigit_of_mem_toDigits (by decide) (by decide) h
  rw [Char.isDigit_iff_toNat] at hd
  simp only [isDigit, Bool.and_eq_true, decide_eq_true_eq, Char.le_def, UInt32.le_iff_toNat_le]
  exact hd

theorem natOf?_toDigits (n : Nat) : natOf? (Nat.toDigits 10 n) = some n := by
  have hall : (Nat.toDigits 10 n).all isDigit = true :=
    List.all_eq_true.2 fun _ h => isDigit_of_mem_toDigits h
  rw [natOf?, if_pos ⟨Nat.toDigits_ne_nil, hall⟩, valueOf_eq_ofDigitChars, Nat.ofDigitChars_ten_toDigits]

end Decimal

end Draftboard
