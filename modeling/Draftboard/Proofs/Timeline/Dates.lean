import Draftboard.Timeline.Dates
import Draftboard.Proofs.Writes
/-!
# Dates that a drag writes

Each of the two dates moves by itself, and one that would leave the bounds of dates stays. So a bar keeps
its length when it is moved, unless only one of its ends would leave the bounds. A handle stops at the
other end of the bar, and a new bar runs from the earlier of its two days to the later one.
-/

namespace Draftboard

theorem AttrValue.same_date_iff {v : AttrValue} {date : Date} :
    v.same (.date date) = true ↔ v = .date date := by
  rw [same_iff]
  cases v <;> simp [untitled]

/-! ## Moving a date -/

namespace Date

def Reaches (date : Date) (days : Int) : Prop :=
  Calendar.firstDay ≤ date.day + days ∧ date.day + days ≤ Calendar.lastDay

instance (date : Date) (days : Int) : Decidable (date.Reaches days) :=
  inferInstanceAs (Decidable (_ ∧ _))

theorem day_shift_of_reaches {date : Date} {days : Int} (reaches : date.Reaches days) :
    (date.shift days).day = date.day + days :=
  (date.day_shift days).trans (if_pos reaches)

theorem distance_shift_iff (a b : Date) (days : Int) :
    (b.shift days).day - (a.shift days).day = b.day - a.day ↔
      days = 0 ∨ (a.Reaches days ↔ b.Reaches days) := by
  rw [day_shift, day_shift]
  unfold Reaches
  split <;> split <;> omega

theorem day_min (a b : Date) : (min a b).day = min a.day b.day := by
  show (if a.day ≤ b.day then a else b).day = _
  split <;> omega

theorem day_max (a b : Date) : (max a b).day = max a.day b.day := by
  show (if a.day ≤ b.day then b else a).day = _
  split <;> omega

end Date

namespace Timeline

/-! ## Which dates are written -/

theorem lastWritten?_edits (dates : DateValues) (name : String) :
    lastWritten? name dates.edits =
      (if Attribute.dueDate = name then dates.due.map .date else none).or
        (if Attribute.startDate = name then dates.start.map .date else none) := by
  obtain ⟨start, due⟩ := dates
  cases start <;> cases due <;> simp [DateValues.edits, lastWritten?]

theorem lastWritten?_edits_startDate (dates : DateValues) :
    lastWritten? Attribute.startDate dates.edits = dates.start.map .date := by
  simp [lastWritten?_edits, show Attribute.dueDate ≠ Attribute.startDate by decide]

theorem lastWritten?_edits_dueDate (dates : DateValues) :
    lastWritten? Attribute.dueDate dates.edits = dates.due.map .date := by
  simp [lastWritten?_edits, show Attribute.startDate ≠ Attribute.dueDate by decide]

structure DateValues.Alike (a b : DateValues) : Prop where
  start : a.start.isSome = b.start.isSome
  due : a.due.isSome = b.due.isSome

theorem isSome_lastWritten?_edits (dates : DateValues) (name : String) :
    (lastWritten? name dates.edits).isSome =
      (decide (Attribute.dueDate = name) && dates.due.isSome ||
        decide (Attribute.startDate = name) && dates.start.isSome) := by
  rw [lastWritten?_edits, Option.isSome_or]
  congr 1 <;> split <;> simp [*]

theorem DateValues.Alike.covers {a b : DateValues} (alike : a.Alike b) (name : String)
    (unwritten : lastWritten? name a.edits = none) : lastWritten? name b.edits = none := by
  rw [← Option.not_isSome_iff_eq_none, isSome_lastWritten?_edits] at unwritten ⊢
  rwa [← alike.start, ← alike.due]

theorem alike_movedDates (pristine : Snapshot) (direction : Direction) (day day' : Date)
    (days days' : Int) :
    (movedDates pristine day days direction).Alike (movedDates pristine day' days' direction) := by
  cases direction with
  | left | right =>
    constructor <;> unfold movedDates <;> cases (pristine.value Attribute.startDate).asDate? <;>
      cases (pristine.value Attribute.dueDate).asDate? <;> rfl
  | both => constructor <;> simp [movedDates]
  | create | dragRight => exact ⟨rfl, rfl⟩

theorem alike_dates (renderer : Renderer) (pristine : Snapshot) (direction : Direction)
    (day day' : Date) (days days' : Int) :
    (renderer.dates pristine day days direction).Alike
      (renderer.dates pristine day' days' direction) := by
  cases renderer with
  | standard => exact alike_movedDates pristine direction day day' days days'
  | fixed dates => exact ⟨rfl, rfl⟩

def Ordered (pristine : Snapshot) : Prop :=
  ∀ start due, (pristine.value Attribute.startDate).asDate? = some start →
    (pristine.value Attribute.dueDate).asDate? = some due → start ≤ due

theorem eq_date_of_asDate? {value : AttrValue} {date : Date} (h : value.asDate? = some date) :
    value = .date date := by
  cases value with
  | date d => exact congrArg AttrValue.date (Option.some.inj h)
  | null | bool | int | text | link | links => cases h

theorem min_eq_left_of_le {a b : Date} (h : a ≤ b) : min a b = a := if_pos h

theorem max_eq_left_of_le {a b : Date} (h : b ≤ a) : max a b = a := by
  show (if a ≤ b then b else a) = a
  split
  · rename_i hle
    exact Date.ext (Int.le_antisymm h hle)
  · rfl

theorem movedDates_zero {pristine : Snapshot} (ordered : Ordered pristine) (day : Date)
    {direction : Direction} (bar : direction.createsDates = false) :
    movedDates pristine day 0 direction =
      { start := if direction = .right then none else (pristine.value Attribute.startDate).asDate?
        due := if direction = .left then none else (pristine.value Attribute.dueDate).asDate? } := by
  have hstay : ∀ date? : Option Date, date?.map (·.shift 0) = date? := by
    intro date?
    cases date? <;> simp [Date.shift_zero]
  unfold movedDates
  cases direction with
  | both => simp [hstay]
  | create | dragRight => cases bar
  | left =>
    simp only [hstay]
    cases hs : (pristine.value Attribute.startDate).asDate? with
    | none => rfl
    | some start =>
      cases hd : (pristine.value Attribute.dueDate).asDate? with
      | none => rfl
      | some due => simp [min_eq_left_of_le (ordered start due hs hd)]
  | right =>
    simp only [hstay]
    cases hs : (pristine.value Attribute.startDate).asDate? with
    | none => rfl
    | some start =>
      cases hd : (pristine.value Attribute.dueDate).asDate? with
      | none => rfl
      | some due => simp [max_eq_left_of_le (ordered start due hs hd)]

theorem pristine_of_edits_zero {pristine : Snapshot} (ordered : Ordered pristine) (day : Date)
    {direction : Direction} (bar : direction.createsDates = false) {name : String} {value : AttrValue}
    (written : lastWritten? name (movedDates pristine day 0 direction).edits = some value) :
    (name = Attribute.startDate ∨ name = Attribute.dueDate) ∧ value = pristine.value name := by
  have hpristine : ∀ (date : String) (keep : Prop) [Decidable keep],
      (if date = name then
        (if keep then none else (pristine.value date).asDate?).map AttrValue.date else none) =
          some value → name = date ∧ value = pristine.value name := by
    intro date keep _ hvalue
    split at hvalue
    · subst date
      obtain ⟨day, hday, rfl⟩ := Option.map_eq_some_iff.1 hvalue
      split at hday
      · cases hday
      · exact ⟨rfl, (eq_date_of_asDate? hday).symm⟩
    · cases hvalue
  rw [movedDates_zero ordered day bar, lastWritten?_edits, Option.or_eq_some_iff] at written
  rcases written with hdue | ⟨-, hstart⟩
  · exact (hpristine _ _ hdue).imp_left Or.inr
  · exact (hpristine _ _ hstart).imp_left Or.inl

/-! ## Moving the whole bar -/

/-- Each end of a bar moves if it can. So the bar keeps its length if both ends can be moved so far or
neither can, and else it does not. -/
theorem bar_keeps_length_iff {pristine : Snapshot} {start due : Date}
    (hstart : (pristine.value Attribute.startDate).asDate? = some start)
    (hdue : (pristine.value Attribute.dueDate).asDate? = some due) (day : Date) (days : Int) :
    ∃ start' due', movedDates pristine day days .both = { start := some start', due := some due' } ∧
      start'.day = (if start.Reaches days then start.day + days else start.day) ∧
      due'.day = (if due.Reaches days then due.day + days else due.day) ∧
      (due'.day - start'.day = due.day - start.day ↔
        days = 0 ∨ (start.Reaches days ↔ due.Reaches days)) := by
  refine ⟨start.shift days, due.shift days, ?_, start.day_shift days, due.day_shift days,
    start.distance_shift_iff due days⟩
  unfold movedDates
  simp [hstart, hdue]

def lateBar : Snapshot :=
  { id := { text := "7" }, typeHref := "task"
    attributes :=
      ((∅ : Attributes).insert Attribute.startDate (.date { day := Calendar.lastDay - 3 })).insert
        Attribute.dueDate (.date { day := Calendar.lastDay - 1 }) }

theorem bar_keeps_length_iff_past_last_day :
    (lateBar.value Attribute.startDate).asDate? = some { day := Calendar.lastDay - 3 } ∧
      (lateBar.value Attribute.dueDate).asDate? = some { day := Calendar.lastDay - 1 } ∧
      ∃ start due, movedDates lateBar .epoch 4 .both = { start := some start, due := some due } ∧
        start.day = Calendar.lastDay - 3 ∧ due.day - start.day = 2 := by
  have hstart : (lateBar.value Attribute.startDate).asDate? = some { day := Calendar.lastDay - 3 } := by
    decide +kernel
  have hdue : (lateBar.value Attribute.dueDate).asDate? = some { day := Calendar.lastDay - 1 } := by
    decide +kernel
  obtain ⟨start, due, hmoved, hs, -, hkeeps⟩ := bar_keeps_length_iff hstart hdue .epoch 4
  refine ⟨hstart, hdue, start, due, hmoved, ?_, ?_⟩
  · rw [hs]
    decide
  · rw [hkeeps.2 (by decide)]
    decide

/-- Three days on there is a date for the start only, and it comes after the due date. -/
theorem bar_turns_round_at_last_day :
    ∃ start due, movedDates lateBar .epoch 3 .both = { start := some start, due := some due } ∧
      start.day = Calendar.lastDay ∧ due.day = Calendar.lastDay - 1 :=
  ⟨{ day := Calendar.lastDay }, { day := Calendar.lastDay - 1 }, by decide +kernel, rfl, rfl⟩

/-! ## Moving a handle, and drawing a bar -/

theorem value_of_written {c : Changeset} {writes : List (String × AttrValue)} {name : String}
    {date : Date} (written : lastWritten? name writes = some (.date date)) :
    (c.setValues writes).value name = .date date := by
  have hsame := Changeset.value_setValues_of_written (c := c) written
  exact AttrValue.same_date_iff.1 hsame

section Assigned

variable {c : Changeset} (unedited : c.isEmpty = true) {writes : List (String × AttrValue)} {name : String}
include unedited

theorem value_of_unwritten (unwritten : lastWritten? name writes = none) :
    (c.setValues writes).value name = c.pristine.value name := by
  rw [Changeset.value_setValues_of_unwritten unwritten, Changeset.value,
    (Changeset.isEmpty_iff c).1 unedited name, Option.getD_none]

theorem asDate?_of_written {date? : Option Date} (written : lastWritten? name writes = date?.map .date) :
    ((c.setValues writes).value name).asDate? = date?.or (c.pristine.value name).asDate? := by
  cases date? with
  | none => rw [value_of_unwritten unedited written, Option.none_or]
  | some date =>
    rw [value_of_written written]
    rfl

end Assigned

/-- Where a drag other than of the whole bar writes a date, the start is not after the due date. -/
theorem le_of_resized {pristine : Snapshot} {day : Date} {days : Int} {direction : Direction}
    (resizes : direction ≠ .both) {start due : Date} :
    let dates := movedDates pristine day days direction
    dates.start.or (pristine.value Attribute.startDate).asDate? = some start →
    dates.due.or (pristine.value Attribute.dueDate).asDate? = some due →
    dates.start.isSome ∨ dates.due.isSome → start ≤ due := by
  intro dates hstart hdue hwrites
  show start.day ≤ due.day
  -- Each handle takes the date of the other end as a bound, so it cannot go past it.
  cases direction with
  | both => exact absurd rfl resizes
  | left =>
    cases hs : (pristine.value Attribute.startDate).asDate? with
    | none => simp [dates, movedDates, hs] at hwrites
    | some before =>
      simp only [dates, movedDates, hs, Option.map_some, Option.none_or] at hstart hdue
      rw [hdue] at hstart
      obtain rfl : min (before.shift days) due = start := by simpa using hstart
      rw [Date.day_min]
      omega
  | right =>
    cases hd : (pristine.value Attribute.dueDate).asDate? with
    | none => simp [dates, movedDates, hd] at hwrites
    | some before =>
      simp only [dates, movedDates, hd, Option.map_some, Option.none_or] at hstart hdue
      rw [hstart] at hdue
      obtain rfl : max (before.shift days) start = due := by simpa using hdue
      rw [Date.day_max]
      omega
  | create =>
    obtain rfl : day = start := by simpa [dates, movedDates] using hstart
    obtain rfl : day = due := by simpa [dates, movedDates] using hdue
    omega
  | dragRight =>
    obtain rfl : min (day.shift (saturate (-days))) day = start := by simpa [dates, movedDates] using hstart
    obtain rfl : max (day.shift (saturate (-days))) day = due := by simpa [dates, movedDates] using hdue
    rw [Date.day_min, Date.day_max]
    omega

/-- A drag of a handle and a new bar leave no bar turned round: if they write a date, the start is not
after the due date. The left handle leaves the due date, the right handle leaves the start date, and
without a date of its own a handle does nothing. -/
theorem resized_bar_in_order {c : Changeset} (unedited : c.isEmpty = true) (day : Date) (days : Int)
    {direction : Direction} (resizes : direction ≠ .both) :
    let dates := movedDates c.pristine day days direction
    let drawn := c.setValues dates.edits
    (dates.start.isSome ∨ dates.due.isSome → Ordered drawn.projected) ∧
    (direction = .left →
      drawn.projected.value Attribute.dueDate = c.pristine.value Attribute.dueDate ∧
      ((c.pristine.value Attribute.startDate).asDate? = none → dates = {} ∧ drawn = c)) ∧
    (direction = .right →
      drawn.projected.value Attribute.startDate = c.pristine.value Attribute.startDate ∧
      ((c.pristine.value Attribute.dueDate).asDate? = none → dates = {} ∧ drawn = c)) := by
  intro dates drawn
  have hkept : ∀ name, lastWritten? name dates.edits = none →
      drawn.projected.value name = c.pristine.value name := by
    intro name unwritten
    rw [Changeset.value_projected]
    exact value_of_unwritten unedited unwritten
  have hnothing : dates = {} → dates = {} ∧ drawn = c := by
    intro hempty
    refine ⟨hempty, ?_⟩
    simp only [drawn, hempty]
    rfl
  refine ⟨fun hwrites => ?_, ?_, ?_⟩
  · intro start due hstart hdue
    rw [Changeset.value_projected] at hstart hdue
    rw [asDate?_of_written unedited (lastWritten?_edits_startDate dates)] at hstart
    rw [asDate?_of_written unedited (lastWritten?_edits_dueDate dates)] at hdue
    exact le_of_resized resizes hstart hdue hwrites
  · rintro rfl
    refine ⟨hkept _ (lastWritten?_edits_dueDate dates), fun hmissing => ?_⟩
    apply hnothing
    simp [dates, movedDates, hmissing]
  · rintro rfl
    refine ⟨hkept _ (lastWritten?_edits_startDate dates), fun hmissing => ?_⟩
    apply hnothing
    simp [dates, movedDates, hmissing]

theorem resized_bar_in_order_turned_round :
    let pristine : Snapshot :=
      { id := { text := "7" }, typeHref := "task"
        attributes := ((∅ : Attributes).insert Attribute.startDate (.date (Date.shift .epoch 6))).insert
          Attribute.dueDate (.date (Date.shift .epoch 2)) }
    let dates := movedDates pristine .epoch 1 .right
    let shown := (({ pristine } : Changeset).setValues dates.edits).projected
    ¬ Ordered pristine ∧ dates = { due := some (Date.shift .epoch 6) } ∧ Ordered shown ∧
      shown.value Attribute.startDate = .date (Date.shift .epoch 6) := by
  intro pristine dates shown
  have hstart : pristine.value Attribute.startDate = .date (Date.shift .epoch 6) := by decide +kernel
  have hdue : pristine.value Attribute.dueDate = .date (Date.shift .epoch 2) := by decide +kernel
  have hdates : dates = { due := some (Date.shift .epoch 6) } := by decide +kernel
  have resizes : Direction.right ≠ .both := by decide
  obtain ⟨hordered, -, hright⟩ := resized_bar_in_order (c := { pristine }) rfl .epoch 1 resizes
  refine ⟨fun turned => ?_, hdates, hordered (Or.inr ?_), (hright rfl).1.trans hstart⟩
  · have hle : Date.shift .epoch 6 ≤ Date.shift .epoch 2 :=
      turned _ _ (congrArg AttrValue.asDate? hstart) (congrArg AttrValue.asDate? hdue)
    exact absurd hle (by decide +kernel)
  · show dates.due.isSome = true
    rw [hdates]
    rfl

/-- The day of the press is not kept. It is the day under the pointer, moved back by the days that the
pointer has moved. -/
theorem movedDates_dragRight (pristine : Snapshot) {origin : Date} {press last : Int}
    (pressed : origin.Reaches press) (shown : origin.Reaches last) :
    movedDates pristine (origin.shift last) (saturate (last - press)) .dragRight =
      { start := some (min (origin.shift press) (origin.shift last))
        due := some (max (origin.shift press) (origin.shift last)) } := by
  have hfits : saturate (last - press) = last - press ∧ saturate (press - last) = press - last := by
    obtain ⟨hp, hp'⟩ := pressed
    obtain ⟨hl, hl'⟩ := shown
    have hlow : Int64.minValue.toInt ≤ Calendar.firstDay - Calendar.lastDay := by decide
    have hhigh : Calendar.lastDay - Calendar.firstDay ≤ Int64.maxValue.toInt := by decide
    constructor <;> apply saturate_of_fits <;> omega
  have hback : (origin.shift last).shift (press - last) = origin.shift press := by
    have hday : (origin.shift last).day + (press - last) = origin.day + press := by
      rw [Date.day_shift_of_reaches shown]
      omega
    refine Date.ext ?_
    rw [Date.day_shift_of_reaches pressed, Date.day_shift, hday]
    exact if_pos pressed
  unfold movedDates
  dsimp only
  rw [hfits.1, Int.neg_sub, hfits.2, hback]

end Timeline

end Draftboard
