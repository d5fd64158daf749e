import Draftboard.Calendar.Instant
import Draftboard.Proofs.Calendar.Civil
import Draftboard.Proofs.Decimal
/-!
# Dates and instants read back

The text of a date is read as that date, and the text of an instant as that instant. Of instants
this holds for those that a reader can give, and for no others: their day is within the bounds,
and a leap second stands only where a minute ends.
-/

namespace Draftboard

open Decimal

namespace Calendar

/-! ## Fields -/

theorem trimStart_cons {c : Char} (h : Text.isBlankChar c = false) (rest : List Char) :
    Text.trimStart (c :: rest) = c :: rest := by
  simp [Text.trimStart, h]

theorem trimStart_digits {digits rest : List Char} (hne : digits ≠ [])
    (h : ∀ c ∈ digits, isDigit c = true) :
    Text.trimStart (digits ++ rest) = digits ++ rest := by
  cases digits with
  | nil => exact absurd rfl hne
  | cons c digits => exact trimStart_cons (isBlankChar_of_isDigit (h c List.mem_cons_self)) _

theorem field_digits {width : Nat} {digits rest : List Char} (hne : digits ≠ [])
    (h : ∀ c ∈ digits, isDigit c = true) (hle : digits.length ≤ width)
    (hend : EndsDigits (rest.take (width - digits.length))) :
    field width (digits ++ rest) = some (valueOf digits, rest) := by
  have hread : ((digits ++ rest).take width).takeWhile isDigit = digits := by
    rw [List.take_append, List.take_of_length_le hle]
    exact Text.takeWhile_run h hend
  simp only [field, trimStart_digits hne h, hread, if_neg hne, List.drop_left]

theorem field_padded {width n : Nat} (hwidth : 0 < width) (h : n < Nat.pow 10 width) (rest : List Char) :
    field width ((padded width n).toList ++ rest) = some (n, rest) := by
  have hlength := length_padded hwidth h
  rw [field_digits (padded_ne_nil width n) (fun _ => isDigit_of_mem_padded) (Nat.le_of_eq hlength),
    valueOf_padded]
  rw [hlength, Nat.sub_self, List.take_zero]
  exact EndsDigits.nil

theorem mark_cons {c : Char} (h : Text.isBlankChar c = false) (rest : List Char) :
    mark c (c :: rest) = some rest := by
  simp [mark, trimStart_cons h]

/-! ## Dates -/

theorem field_dropNone (n : Nat) (rest : List Char) :
    field ((padded 4 n).toList ++ '-' :: rest).length
      (yearField.dropNone ((padded 4 n).toList ++ '-' :: rest)) = some (n, '-' :: rest) := by
  have hdigits : ∀ c ∈ (padded 4 n).toList, isDigit c = true := fun _ => isDigit_of_mem_padded
  have hkeep : yearField.dropNone ((padded 4 n).toList ++ '-' :: rest) =
      (padded 4 n).toList ++ '-' :: rest := by
    cases heq : (padded 4 n).toList with
    | nil => exact absurd heq (padded_ne_nil 4 n)
    | cons c digits =>
      have := isBlankChar_of_isDigit (hdigits c (heq ▸ List.mem_cons_self))
      simp [yearField.dropNone, this]
  rw [hkeep, field_digits (padded_ne_nil 4 n) hdigits (by simp), valueOf_padded]
  exact (EndsDigits.cons (by decide) rest).take _

theorem yearField_digits {digits rest : List Char} (hne : digits ≠ [])
    (h : ∀ c ∈ digits, isDigit c = true) :
    yearField (digits ++ rest) =
      (field 4 (digits ++ rest)).map fun (n, rest) => ((n : Int), rest) := by
  unfold yearField
  rw [trimStart_digits hne h]
  split
  case h_1 heq | h_2 heq => exact absurd heq (append_ne_cons hne h (by decide))
  case h_3 => rfl

theorem yearField_minus (n : Nat) (rest : List Char) :
    yearField ('-' :: ((padded 4 n).toList ++ '-' :: rest)) = some (-(n : Int), '-' :: rest) := by
  unfold yearField
  rw [trimStart_cons (by decide)]
  simp only [field_dropNone, Option.map_some]

theorem yearField_plus (n : Nat) (rest : List Char) :
    yearField ('+' :: ((padded 4 n).toList ++ '-' :: rest)) = some ((n : Int), '-' :: rest) := by
  unfold yearField
  rw [trimStart_cons (by decide)]
  simp only [field_dropNone, Option.map_some]

theorem yearField_yearText (year : Int) (rest : List Char) :
    yearField ((yearText year).toList ++ '-' :: rest) = some (year, '-' :: rest) := by
  unfold yearText
  split
  case isTrue hyear =>
    rw [yearField_digits (padded_ne_nil 4 _) (fun _ => isDigit_of_mem_padded),
      field_padded (by decide) (show year.toNat < 10000 by omega)]
    simp only [Option.map_some, Int.toNat_of_nonneg hyear.1]
  case isFalse hyear =>
    rw [String.toList_append, List.append_assoc]
    split
    case isTrue hneg =>
      rw [show "-".toList = ['-'] from rfl, List.singleton_append, yearField_minus,
        show (-year.natAbs : Int) = year by omega]
    case isFalse hpos =>
      rw [show "+".toList = ['+'] from rfl, List.singleton_append, yearField_plus,
        show (year.natAbs : Int) = year by omega]

theorem toList_dayText (number : Int) (rest : List Char) :
    (dayText number).toList ++ rest =
      (yearText (Civil.ofDayNumber number).year).toList ++
        '-' :: ((padded 2 (Civil.ofDayNumber number).month).toList ++
          '-' :: ((padded 2 (Civil.ofDayNumber number).day).toList ++ rest)) := by
  simp [dayText]

theorem civilField_dayText (number : Int) (rest : List Char) :
    civilField ((dayText number).toList ++ rest) = some (Civil.ofDayNumber number, rest) := by
  have hvalid := isValid_ofDayNumber number
  have hdays := daysInMonth_le (Civil.ofDayNumber number).year (Civil.ofDayNumber number).month
  rw [toList_dayText]
  generalize Civil.ofDayNumber number = c at *
  obtain ⟨hmonth, hday⟩ : c.month < 100 ∧ c.day < 100 := by
    simp only [Civil.isValid, decide_eq_true_eq] at hvalid
    omega
  have hdash (rest : List Char) : mark '-' ('-' :: rest) = some rest := mark_cons (by decide) rest
  have htwo {n : Nat} (h : n < 100) (rest : List Char) : field 2 ((padded 2 n).toList ++ rest) =
      some (n, rest) := field_padded (by decide) h rest
  simp only [civilField, yearField_yearText, hdash, htwo hmonth, htwo hday, Option.bind_eq_bind,
    Option.bind_some]
  exact if_pos hvalid

end Calendar

namespace Date

theorem read?_text (date : Date) : read? date.text = some date := by
  have hcivil := Calendar.civilField_dayText date.day []
  rw [List.append_nil] at hcivil
  simp only [read?, text, hcivil, Option.bind_eq_bind, Option.bind_some,
    Calendar.dayNumber_ofDayNumber, ofDay?_day]
  rfl

end Date

namespace Instant

open Calendar

/-! ## Instants -/

/-- An instant that a text can stand for: its day lies within the bounds of dates, and a second that
lasts longer is the last of a minute. -/
structure IsReadable (t : Instant) : Prop where
  firstDay_le : firstDay ≤ t.dayNumber
  le_lastDay : t.dayNumber ≤ lastDay
  nanos_lt : t.nanos < 1000000000 ∨ t.nanos < 2000000000 ∧ t.seconds % 60 = 59

theorem fractionField_padded {width n : Nat} (hpos : 0 < width) (hwidth : width ≤ 9)
    (h : n < Nat.pow 10 width) (rest : List Char) :
    fractionField ('.' :: ((padded width n).toList ++ 'Z' :: rest)) =
      some (n * Nat.pow 10 (9 - width), 'Z' :: rest) := by
  have hdigits : ∀ c ∈ (padded width n).toList, isDigit c = true := fun _ => isDigit_of_mem_padded
  have hspan := spanDigits_append_of_digits hdigits (EndsDigits.cons (c := 'Z') (by decide) rest)
  have hlength := length_padded hpos h
  have hkept : (padded width n).toList.take 9 = (padded width n).toList :=
    List.take_of_length_le (by omega)
  simp only [fractionField, hspan, hkept, if_neg (padded_ne_nil width n), valueOf_padded, hlength]

theorem fractionField_fractionText {nanos : Nat} (h : nanos < 1000000000) (rest : List Char) :
    fractionField ((fractionText nanos).toList ++ 'Z' :: rest) = some (nanos, 'Z' :: rest) := by
  have hpoint (digits : String) : ("." ++ digits).toList ++ 'Z' :: rest =
      '.' :: (digits.toList ++ 'Z' :: rest) := by simp
  unfold fractionText
  split
  case isTrue hzero =>
    subst hzero
    rfl
  case isFalse =>
    split
    case isTrue hmillis =>
      have hback : nanos / 1000000 * Nat.pow 10 (9 - 3) = nanos :=
        Nat.div_mul_cancel (Nat.dvd_of_mod_eq_zero hmillis)
      rw [hpoint, fractionField_padded (by decide) (by decide) (show nanos / 1000000 < 1000 by omega),
        hback]
    case isFalse =>
      split
      case isTrue hmicros =>
        have hback : nanos / 1000 * Nat.pow 10 (9 - 6) = nanos :=
          Nat.div_mul_cancel (Nat.dvd_of_mod_eq_zero hmicros)
        rw [hpoint, fractionField_padded (by decide) (by decide) (show nanos / 1000 < 1000000 by omega),
          hback]
      case isFalse =>
        rw [hpoint, fractionField_padded (by decide) (by decide) h]
        exact congrArg (fun n => some (n, 'Z' :: rest)) (Nat.mul_one nanos)

/-- The second after the last of a minute is that last one, a leap second. -/
theorem clockField_padded {hour minute second : Nat} (hhour : hour < 24) (hminute : minute < 60)
    (hsecond : second ≤ 60) (rest : List Char) :
    clockField ((padded 2 hour).toList ++ ':' :: ((padded 2 minute).toList ++
      ':' :: ((padded 2 second).toList ++ rest))) =
      some ((3600 * hour + 60 * minute + (second - second / 60), 1000000000 * (second / 60)),
        rest) := by
  have hcolon (rest : List Char) : mark ':' (':' :: rest) = some rest := mark_cons (by decide) rest
  have htwo {n : Nat} (h : n ≤ 60) (rest : List Char) : field 2 ((padded 2 n).toList ++ rest) =
      some (n, rest) := field_padded (by decide) (show n < 100 by omega) rest
  simp only [clockField, hcolon, htwo (show hour ≤ 60 by omega), htwo (show minute ≤ 60 by omega),
    htwo hsecond, Option.bind_eq_bind, Option.bind_some]
  exact if_pos ⟨hhour, hminute, hsecond⟩

theorem toList_text (t : Instant) :
    t.text.toList = (dayText t.dayNumber).toList ++
      'T' :: ((padded 2 ((t.seconds % 86400).toNat / 3600)).toList ++
        ':' :: ((padded 2 ((t.seconds % 86400).toNat / 60 % 60)).toList ++
          ':' :: ((padded 2 ((t.seconds % 86400).toNat % 60 + t.nanos / 1000000000)).toList ++
            ((fractionText (t.nanos % 1000000000)).toList ++ ['Z'])))) := by
  simp [text]

theorem read?_text (t : Instant) (h : t.IsReadable) : read? t.text = some t := by
  obtain ⟨hfirst, hlast, hnanos⟩ := h
  obtain ⟨second, hsecond⟩ : ∃ second, (t.seconds % 86400).toNat = second := ⟨_, rfl⟩
  have hclock := clockField_padded (show second / 3600 < 24 by omega)
    (show second / 60 % 60 < 60 by omega) (show second % 60 + t.nanos / 1000000000 ≤ 60 by omega)
  have hfraction := fractionField_fractionText (show t.nanos % 1000000000 < 1000000000 by omega) []
  have hzone : offsetField ['Z'] = some (0, []) := rfl
  have hleap : (second % 60 + t.nanos / 1000000000) / 60 = t.nanos / 1000000000 := by omega
  have hback : (⟨t.dayNumber * 86400 + ↑(3600 * (second / 3600) + 60 * (second / 60 % 60) +
      (second % 60 + t.nanos / 1000000000 - t.nanos / 1000000000)) - 0,
      t.nanos % 1000000000 + 1000000000 * (t.nanos / 1000000000)⟩ : Instant) = t := by
    have hseconds : t.dayNumber * 86400 + second = t.seconds := by
      unfold dayNumber
      omega
    cases t
    simp only [Instant.mk.injEq] at *
    omega
  have hday : (Date.ofDay? t.dayNumber).isSome = true := by
    simp [Date.ofDay?, hfirst, hlast]
  simp only [read?, toList_text, civilField_dayText, hsecond, hclock, hfraction, hzone,
    Option.bind_eq_bind, Option.bind_some, dayNumber_ofDayNumber, hleap, hback]
  exact if_pos ⟨rfl, hfirst, hlast, hday⟩

/-! ## What the reader gives -/

theorem fractionField_lt {cs rest : List Char} {nanos : Nat}
    (h : fractionField cs = some (nanos, rest)) : nanos < 1000000000 := by
  unfold fractionField at h
  split at h
  case h_1 rest' =>
    dsimp only at h
    split at h
    case isTrue => cases h
    case isFalse =>
      obtain ⟨rfl, -⟩ := Prod.mk.inj (Option.some.inj h)
      have hkept : ∀ c ∈ (spanDigits rest').1.take 9, isDigit c = true := fun c hc =>
        isDigit_of_mem_span (List.mem_of_mem_take hc)
      have hlength : ((spanDigits rest').1.take 9).length ≤ 9 := List.length_take_le 9 _
      generalize (spanDigits rest').1.take 9 = kept at *
      calc valueOf kept * Nat.pow 10 (9 - kept.length)
          < Nat.pow 10 kept.length * Nat.pow 10 (9 - kept.length) :=
            Nat.mul_lt_mul_of_pos_right (valueOf_lt hkept) (Nat.pow_pos (by decide))
        _ = Nat.pow 10 (kept.length + (9 - kept.length)) := (Nat.pow_add 10 _ _).symm
        _ = 1000000000 := by rw [Nat.add_sub_cancel' hlength]
  case h_2 =>
    obtain ⟨rfl, -⟩ := Prod.mk.inj (Option.some.inj h)
    decide

theorem offsetField_mod {cs rest : List Char} {offset : Int}
    (h : offsetField cs = some (offset, rest)) : offset % 60 = 0 := by
  have hsigned {sign : Int} {hours minutes : Nat} {after : List Char}
      (hfound : (if minutes < 60 ∧ 3600 * hours + 60 * minutes < 86400 then
        some (sign * ↑(3600 * hours + 60 * minutes), after) else none) = some (offset, rest)) :
      offset % 60 = 0 := by
    split at hfound
    · obtain ⟨rfl, -⟩ := Prod.mk.inj (Option.some.inj hfound)
      have hminutes : ((3600 * hours + 60 * minutes : Nat) : Int) = 60 * (60 * hours + minutes) := by
        omega
      rw [hminutes, Int.mul_left_comm]
      omega
    · cases hfound
  -- All forms but the letter for none end in the same computation.
  unfold offsetField at h
  dsimp only at h
  split at h
  case h_1 | h_2 =>
    obtain ⟨rfl, -⟩ := Prod.mk.inj (Option.some.inj h)
    rfl
  case h_3 | h_4 | h_5 =>
    simp only [Option.bind_eq_bind, Option.bind_eq_some_iff] at h
    obtain ⟨⟨hours, _⟩, -, ⟨minutes, _⟩, -, h⟩ := h
    exact hsigned h
  case h_6 =>
    split at h
    · obtain ⟨rfl, -⟩ := Prod.mk.inj (Option.some.inj h)
      rfl
    · cases h
  case h_7 => cases h

theorem clockField_leap {cs rest : List Char} {second leap : Nat}
    (h : clockField cs = some ((second, leap), rest)) :
    leap = 0 ∨ leap = 1000000000 ∧ second % 60 = 59 := by
  simp only [clockField, Option.bind_eq_bind, Option.bind_eq_some_iff] at h
  obtain ⟨⟨hour, _⟩, -, _, -, ⟨minute, _⟩, -, _, -, ⟨s, _⟩, -, h⟩ := h
  dsimp only at h
  split at h
  · obtain ⟨h, -⟩ := Prod.mk.inj (Option.some.inj h)
    obtain ⟨rfl, rfl⟩ := Prod.mk.inj h
    omega
  · cases h

theorem isReadable_of_read? {s : String} {t : Instant} (h : read? s = some t) : t.IsReadable := by
  simp only [read?, Option.bind_eq_bind, Option.bind_eq_some_iff] at h
  obtain ⟨⟨civil, _⟩, -, h⟩ := h
  dsimp only at h
  split at h
  case h_1 | h_2 | h_3 =>
    simp only [Option.bind_some, Option.bind_eq_some_iff] at h
    obtain ⟨⟨⟨second, leap⟩, _⟩, hclock, ⟨nanos, _⟩, hfraction, ⟨offset, _⟩, hoffset, h⟩ := h
    dsimp only at h
    split at h
    case isTrue hin =>
      obtain rfl := Option.some.inj h
      have hday := hin.2.2.2
      simp only [Date.ofDay?, Option.isSome_dite] at hday
      have hnanos := fractionField_lt hfraction
      have hoffset := offsetField_mod hoffset
      refine ⟨hday.1, hday.2, ?_⟩
      rcases clockField_leap hclock with rfl | ⟨rfl, hlast⟩
      · left
        simpa using hnanos
      · right
        dsimp only
        omega
    case isFalse => cases h
  case h_4 => cases h

theorem read?_text_iff (t : Instant) : read? t.text = some t ↔ t.IsReadable :=
  ⟨isReadable_of_read?, read?_text t⟩

end Instant

end Draftboard
