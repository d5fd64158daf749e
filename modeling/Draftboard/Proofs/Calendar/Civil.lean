import Draftboard.Calendar.Date
/-!
# Days and civil dates

Each day number is the number of the civil date that is made from it, and that date is valid. The
400 years of an era fall into centuries, those into groups of four years and those into years; the
days of an era are split in the same way.
-/

namespace Draftboard.Calendar

/-! ## The days of an era -/

/-- Where a day stands in its era: the century, the group of four years in it, the year in that
group, and the day in that year. Only the last year of a group has a day 365, and in the last group
of a century only the era's last century has it. -/
structure EraDay where
  century : Int
  group : Int
  year : Int
  day : Int
  century_mem : 0 ≤ century ∧ century ≤ 3
  group_mem : 0 ≤ group ∧ group ≤ 24
  year_mem : 0 ≤ year ∧ year ≤ 3
  day_mem : 0 ≤ day ∧ day ≤ 365
  leap_of_day : day = 365 → year = 3 ∧ (group < 24 ∨ century = 3)

namespace EraDay

def yearOfEra (e : EraDay) : Int := 100 * e.century + 4 * e.group + e.year

def dayOfEra (e : EraDay) : Int := 36524 * e.century + 1461 * e.group + 365 * e.year + e.day

theorem yearOfEra_mem (e : EraDay) : 0 ≤ e.yearOfEra ∧ e.yearOfEra < 400 := by
  have := e.century_mem
  have := e.group_mem
  have := e.year_mem
  unfold yearOfEra
  omega

theorem days_before_year (e : EraDay) :
    365 * e.yearOfEra + e.yearOfEra / 4 - e.yearOfEra / 100 = e.dayOfEra - e.day := by
  have := e.group_mem
  have := e.year_mem
  have hgroups : e.yearOfEra / 4 = 25 * e.century + e.group := by unfold yearOfEra; omega
  have hcenturies : e.yearOfEra / 100 = e.century := by unfold yearOfEra; omega
  rw [hgroups, hcenturies]
  unfold yearOfEra dayOfEra
  omega

/-- The year of a day: without the leap days before it, each year has 365 days. -/
theorem yearOfEra_eq (e : EraDay) :
    (e.dayOfEra - e.dayOfEra / 1460 + e.dayOfEra / 36524 - e.dayOfEra / 146096) / 365 =
      e.yearOfEra := by
  have hcentury := e.century_mem
  have hgroup := e.group_mem
  have hyear := e.year_mem
  have hday := e.day_mem
  have hleap := e.leap_of_day
  unfold yearOfEra dayOfEra
  generalize e.century = c, e.group = g, e.year = y, e.day = d at *
  by_cases hlast : d = 365 ∧ g = 24
  · -- the last day of the era
    obtain ⟨rfl, rfl⟩ := hlast
    obtain ⟨rfl, hfour⟩ := hleap rfl
    obtain rfl : c = 3 := by omega
    rfl
  · have hera : (36524 * c + 1461 * g + 365 * y + d) / 146096 = 0 := by omega
    have hcenturies : (36524 * c + 1461 * g + 365 * y + d) / 36524 = c := by omega
    have hgroups : (36524 * c + 1461 * g + 365 * y + d) / 1460 = 25 * c + g ∨
        (36524 * c + 1461 * g + 365 * y + d) / 1460 = 25 * c + g + 1 ∧ y = 3 := by omega
    rw [hera, hcenturies]
    rcases hgroups with h | ⟨h, h3⟩ <;> omega

theorem dayOfEra_mem (e : EraDay) : 0 ≤ e.dayOfEra ∧ e.dayOfEra < 146097 := by
  have := e.century_mem
  have := e.group_mem
  have := e.year_mem
  have := e.day_mem
  have := e.leap_of_day
  unfold dayOfEra
  omega

theorem exists_dayOfEra_eq {day : Int} (h0 : 0 ≤ day) (hlt : day < 146097) :
    ∃ e : EraDay, e.dayOfEra = day := by
  by_cases hlast : day = 146096
  · subst hlast
    exact ⟨⟨3, 24, 3, 365, by omega, by omega, by omega, by omega, by omega⟩, rfl⟩
  · by_cases hleap : day % 36524 % 1461 = 1460
    · refine ⟨⟨day / 36524, day % 36524 / 1461, 3, 365, by omega, by omega, by omega, by omega,
        by omega⟩, ?_⟩
      simp only [dayOfEra]
      omega
    · refine ⟨⟨day / 36524, day % 36524 / 1461, day % 36524 % 1461 / 365,
        day % 36524 % 1461 % 365, by omega, by omega, by omega, by omega, by omega⟩, ?_⟩
      simp only [dayOfEra]
      omega

/-! ## Months -/

/-- Months are counted from March, in which a year starts. -/
def monthFromMarch (e : EraDay) : Int := (5 * e.day + 2) / 153

def month (e : EraDay) : Int :=
  if e.monthFromMarch < 10 then e.monthFromMarch + 3 else e.monthFromMarch - 9

def dayOfMonth (e : EraDay) : Int := e.day - (153 * e.monthFromMarch + 2) / 5 + 1

theorem monthFromMarch_mem (e : EraDay) : 0 ≤ e.monthFromMarch ∧ e.monthFromMarch ≤ 11 := by
  have := e.day_mem
  unfold monthFromMarch
  omega

theorem month_mem (e : EraDay) : 1 ≤ e.month ∧ e.month ≤ 12 := by
  have := e.monthFromMarch_mem
  unfold month
  omega

theorem dayOfMonth_mem (e : EraDay) : 1 ≤ e.dayOfMonth ∧ e.dayOfMonth ≤ 31 := by
  have := e.day_mem
  unfold dayOfMonth monthFromMarch
  omega

theorem dayOfMonth_le_thirty (e : EraDay)
    (h : e.month = 4 ∨ e.month = 6 ∨ e.month = 9 ∨ e.month = 11) : e.dayOfMonth ≤ 30 := by
  have := e.monthFromMarch_mem
  have hmonth : e.monthFromMarch = 1 ∨ e.monthFromMarch = 3 ∨ e.monthFromMarch = 6 ∨
      e.monthFromMarch = 8 := by
    unfold month at h
    omega
  unfold dayOfMonth
  unfold monthFromMarch at *
  omega

/-- February is the last month, and has a day 29 in a leap year only. -/
theorem dayOfMonth_february (e : EraDay) (h : e.month = 2) :
    e.dayOfMonth ≤ 29 ∧ (e.dayOfMonth = 29 → e.day = 365) := by
  have := e.day_mem
  have := e.monthFromMarch_mem
  have hmonth : e.monthFromMarch = 11 := by
    unfold month at h
    omega
  unfold dayOfMonth
  omega

/-- The civil date of a day in an era. The year of the calendar starts two months before the next
year that starts in March. -/
def civil (e : EraDay) (era : Int) : Civil :=
  { year := e.yearOfEra + era * 400 + (if e.month ≤ 2 then 1 else 0)
    month := e.month.toNat
    day := e.dayOfMonth.toNat }

theorem dayNumber_civil (e : EraDay) (era : Int) :
    (e.civil era).dayNumber = era * 146097 + e.dayOfEra - 719468 := by
  have hyears := e.yearOfEra_mem
  have hbefore := e.days_before_year
  have hmonth := e.month_mem
  have hfromMarch := e.monthFromMarch_mem
  have hday := e.dayOfMonth_mem
  have hstart : (if (e.civil era).month ≤ 2 then (e.civil era).year - 1 else (e.civil era).year) =
      e.yearOfEra + era * 400 := by
    have : e.month.toNat ≤ 2 ↔ e.month ≤ 2 := by omega
    simp only [civil, this]
    split <;> omega
  have hdays : (153 * (((e.civil era).month + 9) % 12) + 2) / 5 + (e.civil era).day - 1 =
      e.day := by
    have : ((e.month.toNat : Int) + 9) % 12 = e.monthFromMarch := by
      unfold month at *
      omega
    simp only [civil, this]
    unfold dayOfMonth at *
    omega
  have hera : (e.yearOfEra + era * 400) / 400 = era := by omega
  have hyear : (e.yearOfEra + era * 400) % 400 = e.yearOfEra := by omega
  unfold Civil.dayNumber
  simp only [hstart, hdays, hera, hyear]
  omega

theorem isLeap_of_day (e : EraDay) (era : Int) (h : e.day = 365) :
    isLeap (e.yearOfEra + era * 400 + 1) = true := by
  have := e.century_mem
  have := e.group_mem
  have := e.leap_of_day h
  unfold isLeap yearOfEra
  rw [decide_eq_true_eq]
  omega

theorem isValid_civil (e : EraDay) (era : Int) : (e.civil era).isValid = true := by
  have hmonth := e.month_mem
  have hday := e.dayOfMonth_mem
  have hlength : e.dayOfMonth.toNat ≤ daysInMonth (e.civil era).year e.month.toNat := by
    unfold daysInMonth
    split
    case isTrue hfebruary =>
      obtain ⟨hle, hlast⟩ := e.dayOfMonth_february (by omega)
      split
      · omega
      case isFalse hleap =>
        have hyear : (e.civil era).year = e.yearOfEra + era * 400 + 1 := by
          simp only [civil, show e.month ≤ 2 by omega, if_true]
        have : e.day ≠ 365 := fun h => hleap (hyear ▸ e.isLeap_of_day era h)
        omega
    case isFalse =>
      split
      · have := e.dayOfMonth_le_thirty (by omega)
        omega
      · omega
  have hmonths : 1 ≤ e.month.toNat ∧ e.month.toNat ≤ 12 := by omega
  have hfirst : 1 ≤ e.dayOfMonth.toNat := by omega
  simp only [Civil.isValid, decide_eq_true_eq]
  exact ⟨hmonths.1, hmonths.2, hfirst, hlength⟩

end EraDay

/-! ## Every day -/

theorem ofDayNumber_eq {number era : Int} {e : EraDay}
    (h : number + 719468 = era * 146097 + e.dayOfEra) : Civil.ofDayNumber number = e.civil era := by
  have hmem := e.dayOfEra_mem
  have hera : (number + 719468) / 146097 = era := by omega
  have hday : (number + 719468) % 146097 = e.dayOfEra := by omega
  have hyear : e.dayOfEra - (365 * e.yearOfEra + e.yearOfEra / 4 - e.yearOfEra / 100) = e.day := by
    have := e.days_before_year
    omega
  simp only [Civil.ofDayNumber, hera, hday, e.yearOfEra_eq, hyear]
  rfl

theorem exists_eraDay (number : Int) :
    ∃ (era : Int) (e : EraDay), number + 719468 = era * 146097 + e.dayOfEra := by
  obtain ⟨e, he⟩ := EraDay.exists_dayOfEra_eq (show 0 ≤ (number + 719468) % 146097 by omega)
    (by omega)
  exact ⟨(number + 719468) / 146097, e, by omega⟩

theorem daysInMonth_le (year : Int) (month : Nat) : daysInMonth year month ≤ 31 := by
  unfold daysInMonth
  split
  · split <;> decide
  · split <;> decide

theorem isValid_ofDayNumber (number : Int) : (Civil.ofDayNumber number).isValid = true := by
  obtain ⟨era, e, h⟩ := exists_eraDay number
  rw [ofDayNumber_eq h]
  exact e.isValid_civil era

theorem dayNumber_ofDayNumber (number : Int) : (Civil.ofDayNumber number).dayNumber = number := by
  obtain ⟨era, e, h⟩ := exists_eraDay number
  rw [ofDayNumber_eq h, e.dayNumber_civil]
  omega

end Draftboard.Calendar
