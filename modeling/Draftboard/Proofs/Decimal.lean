import Mathlib.Data.List.TakeWhile
import Draftboard.Text.Characters
/-!
# Digits that are written are read back

The digits of a number and of a number with zeros in front: they are digits, their value is the
number, and a reader of digits stops after them, as a text is taken apart in one way only after the run
of characters of one kind that it starts with.
-/

namespace Draftboard.Text

/-! ## Runs of characters -/

variable {p : Char → Bool} {run rest : List Char}

theorem takeWhile_run (hrun : ∀ c ∈ run, p c = true) (hrest : ∀ c ∈ rest.head?, p c = false) :
    (run ++ rest).takeWhile p = run := by
  rw [List.takeWhile_append_of_pos hrun]
  cases rest with
  | nil => simp
  | cons c rest => simp [hrest c rfl]

theorem dropWhile_run (hrun : ∀ c ∈ run, p c = true) (hrest : ∀ c ∈ rest.head?, p c = false) :
    (run ++ rest).dropWhile p = rest := by
  rw [List.dropWhile_append_of_pos hrun]
  cases rest with
  | nil => rfl
  | cons c rest => simp [hrest c rfl]

theorem exists_run (p : Char → Bool) (cs : List Char) :
    ∃ run rest, cs = run ++ rest ∧ (∀ c ∈ run, p c = true) ∧ ∀ c ∈ rest.head?, p c = false := by
  refine ⟨cs.takeWhile p, cs.dropWhile p, List.takeWhile_append_dropWhile.symm,
    fun _ hc => List.mem_takeWhile_imp hc, fun c hc => ?_⟩
  have hstop := List.head?_dropWhile_not p cs
  rw [Option.mem_def.1 hc] at hstop
  exact hstop

end Draftboard.Text

namespace Draftboard.Decimal

/-! ## Characters -/

theorem isBlankChar_of_isDigit {c : Char} (h : isDigit c = true) : Text.isBlankChar c = false := by
  simp only [isDigit, Bool.and_eq_true, decide_eq_true_eq, Char.le_def, UInt32.le_iff_toNat_le] at h
  obtain ⟨hlow, hhigh⟩ := h
  change 48 ≤ c.toNat at hlow
  change c.toNat ≤ 57 at hhigh
  simp only [Text.isBlankChar, Bool.or_eq_false_iff, Bool.and_eq_false_iff, decide_eq_false_iff_not,
    beq_eq_false_iff_ne]
  omega

theorem ne_of_isDigit {c d : Char} (h : isDigit c = true) (hd : isDigit d = false) : c ≠ d := by
  rintro rfl
  simp [h] at hd

/-! ## Runs of digits -/

theorem append_ne_cons {digits rest rest' : List Char} {c : Char} (hne : digits ≠ [])
    (h : ∀ c ∈ digits, isDigit c = true) (hc : isDigit c = false) : digits ++ rest ≠ c :: rest' := by
  cases digits with
  | nil => exact absurd rfl hne
  | cons d digits =>
    exact fun heq => ne_of_isDigit (h d List.mem_cons_self) hc (List.cons.inj heq).1

/-- A text that does not go on with a digit. -/
def EndsDigits (rest : List Char) : Prop := ∀ c ∈ rest.head?, isDigit c = false

theorem EndsDigits.nil : EndsDigits [] := by
  simp [EndsDigits]

theorem EndsDigits.cons {c : Char} (h : isDigit c = false) (rest : List Char) :
    EndsDigits (c :: rest) := by
  simpa [EndsDigits] using h

theorem EndsDigits.take {rest : List Char} (h : EndsDigits rest) (n : Nat) :
    EndsDigits (rest.take n) := by
  intro c hc
  rw [List.head?_take] at hc
  split at hc
  · cases hc
  · exact h c hc

theorem spanDigits_append_of_digits {digits rest : List Char} (h : ∀ c ∈ digits, isDigit c = true)
    (hrest : EndsDigits rest) : spanDigits (digits ++ rest) = (digits, rest) :=
  Prod.ext (Text.takeWhile_run h hrest) (Text.dropWhile_run h hrest)

theorem valueOf_toDigits (n : Nat) : valueOf (Nat.toDigits 10 n) = n := by
  rw [valueOf_eq_ofDigitChars, Nat.ofDigitChars_ten_toDigits]

theorem foldl_digits_lt {digits : List Char} (h : ∀ c ∈ digits, isDigit c = true) (n : Nat) :
    digits.foldl (fun n c => 10 * n + digitValue c) n < (n + 1) * Nat.pow 10 digits.length := by
  induction digits generalizing n with
  | nil => exact Nat.lt_of_lt_of_eq (Nat.lt_succ_self n) (Nat.mul_one (n + 1)).symm
  | cons c digits ih =>
    obtain ⟨hc, hdigits⟩ := List.forall_mem_cons.1 h
    have hvalue : digitValue c < 10 := by
      simp only [isDigit, Bool.and_eq_true, decide_eq_true_eq, Char.le_def,
        UInt32.le_iff_toNat_le] at hc
      have hhigh : c.toNat ≤ 57 := hc.2
      change c.toNat - 48 < 10
      omega
    calc digits.foldl (fun n c => 10 * n + digitValue c) (10 * n + digitValue c)
        < (10 * n + digitValue c + 1) * Nat.pow 10 digits.length := ih hdigits _
      _ ≤ (n + 1) * 10 * Nat.pow 10 digits.length := Nat.mul_le_mul_right _ (by omega)
      _ = (n + 1) * Nat.pow 10 (digits.length + 1) := by
        rw [Nat.mul_assoc, Nat.mul_comm 10]
        rfl

theorem valueOf_lt {digits : List Char} (h : ∀ c ∈ digits, isDigit c = true) :
    valueOf digits < Nat.pow 10 digits.length := by
  have hlt := foldl_digits_lt h 0
  rw [Nat.zero_add, Nat.one_mul] at hlt
  exact hlt

theorem head?_toDigits_ne {n : Nat} (h : 0 < n) : (Nat.toDigits 10 n).head? ≠ some '0' := by
  induction n using Nat.strongRecOn with
  | ind n ih =>
    by_cases hlt : n < 10
    · rw [Nat.toDigits_of_lt_base hlt]
      simpa using Nat.ne_of_gt h
    · rw [Nat.toDigits_of_base_le (by decide) (Nat.le_of_not_lt hlt),
        List.head?_append, List.head?_eq_some_head Nat.toDigits_ne_nil, Option.some_or,
        ← List.head?_eq_some_head]
      exact ih (n / 10) (by omega) (by omega)

/-! ## Zeros in front -/

theorem toList_padded (width n : Nat) : (padded width n).toList =
    List.replicate (width - (Nat.toDigits 10 n).length) '0' ++ Nat.toDigits 10 n := by
  have hdigits : (toString n).toList = Nat.toDigits 10 n := Nat.toList_repr
  simp only [padded, String.toList_append, String.toList_ofList, hdigits, ← String.length_toList]

theorem isDigit_of_mem_padded {width n : Nat} {c : Char} (h : c ∈ (padded width n).toList) :
    isDigit c = true := by
  rw [toList_padded, List.mem_append, List.mem_replicate] at h
  rcases h with ⟨-, rfl⟩ | h
  · decide
  · exact isDigit_of_mem_toDigits h

theorem padded_ne_nil (width n : Nat) : (padded width n).toList ≠ [] := by
  rw [toList_padded]
  exact List.append_ne_nil_of_right_ne_nil _ Nat.toDigits_ne_nil

theorem valueOf_padded (width n : Nat) : valueOf (padded width n).toList = n := by
  have hzeros (k : Nat) : (List.replicate k '0').foldl (fun n c => 10 * n + digitValue c) 0 = 0 := by
    induction k with
    | zero => rfl
    | succ k ih => exact ih
  rw [toList_padded, valueOf, List.foldl_append, hzeros]
  exact valueOf_toDigits n

theorem length_padded {width n : Nat} (hwidth : 0 < width) (h : n < Nat.pow 10 width) :
    (padded width n).toList.length = width := by
  have := (Nat.length_toDigits_le_iff (by decide : 1 < 10) hwidth).2 h
  rw [toList_padded, List.length_append, List.length_replicate]
  omega

end Draftboard.Decimal
