import Std.Data.ExtTreeMap
import Std.Data.ExtTreeMap.Lemmas
import Draftboard.Text.Characters
/-!
# Work package ids

Ids, the sentinel id of a work package that is not saved yet, and the API path of an id.
-/

namespace Draftboard

structure PackageId where
  text : String
deriving DecidableEq, Inhabited

namespace PackageId

instance : Ord PackageId := ⟨compareOn PackageId.text⟩

instance : Std.TransOrd PackageId := inferInstanceAs (Std.TransCmp (compareOn PackageId.text))

instance : Std.LawfulEqOrd PackageId where
  eq_of_compare {a b} h := by
    cases a; cases b
    exact congrArg PackageId.mk (Std.LawfulEqOrd.eq_of_compare h)

/-- The id that every unsaved work package has. -/
def unsaved : PackageId := { text := "new" }

def isNew (id : PackageId) : Bool := id == unsaved

/-! ## Paths -/

def pathStart : String := "/api/v3/work_packages/"

def href (id : PackageId) : String := pathStart ++ id.text

/-- The last part of a path, with the slashes at its end left out; `none` when nothing is left. -/
def ofHref? (href : String) : Option PackageId :=
  let backwards := href.toList.reverse.dropWhile (· = '/')
  let part := (backwards.takeWhile (· ≠ '/')).reverse
  if part = [] then none else some { text := String.ofList part }

/-! ## Numbers -/

/-- The number that an id writes: digits, with a plus sign in front or not, that fit 64 bits. -/
def number? (id : PackageId) : Option Nat :=
  let digits := match id.text.toList with
    | '+' :: rest => rest
    | cs => cs
  (Decimal.natOf? digits).filter (· < UInt64.size)

def ofNumber (n : Nat) : PackageId := { text := toString n }

theorem isNew_unsaved : unsaved.isNew = true := by decide

@[simp] theorem isNew_iff (id : PackageId) : id.isNew = true ↔ id = unsaved := by
  simp [isNew]

/-- The number in an id that writes one: that number, if it fits 64 bits. -/
theorem number?_ofNumber_eq (n : Nat) :
    (ofNumber n).number? = if n < UInt64.size then some n else none := by
  have hplus : '+' ∉ Nat.toDigits 10 n := fun hmem =>
    absurd (Decimal.isDigit_of_mem_toDigits hmem) (by decide)
  have htext : (ofNumber n).text.toList = Nat.toDigits 10 n := Nat.toList_repr
  have hdigits : (match Nat.toDigits 10 n with
      | '+' :: rest => rest
      | cs => cs) = Nat.toDigits 10 n := by
    split
    · rename_i heq
      rw [heq] at hplus
      exact absurd List.mem_cons_self hplus
    · rfl
  simp only [number?, htext]
  rw [hdigits, Decimal.natOf?_toDigits, Option.filter_some]
  simp only [decide_eq_true_eq]

theorem number?_ofNumber {n : Nat} (h : n < UInt64.size) : (ofNumber n).number? = some n := by
  rw [number?_ofNumber_eq, if_pos h]

theorem number?_ofNumber_le {m n : Nat} (h : (ofNumber n).number? = some m) : m ≤ n := by
  rw [number?_ofNumber_eq] at h
  split at h
  · exact Nat.le_of_eq (Option.some.inj h).symm
  · cases h

end PackageId

/-- A map from work package ids, ordered by code point. -/
abbrev IdMap (α : Type) := Std.ExtTreeMap PackageId α

end Draftboard
