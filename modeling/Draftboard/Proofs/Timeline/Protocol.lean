import Draftboard.Timeline.Drag
/-!
# The drag protocol

Between two rests a drag has one press, previews of that press, and a commit or a cancel at the end.
-/

namespace Draftboard.Timeline

/-! ## Runs -/

inductive DragEvent where
  | down (isLeaf : Bool) (direction : Direction) (cell : Cell)
  | move (cell : Cell)
  | up
  | escape
  | leave
  | finish
deriving DecidableEq

namespace DragState

def on (selecting : Bool) (s : DragState) : DragEvent → DragState × List Intent
  | .down isLeaf direction cell => s.pointerDown selecting isLeaf direction cell
  | .move cell => ((s.pointerMove cell).1, (s.pointerMove cell).2.toList)
  | .up => (s.pointerUp.1, s.pointerUp.2.toList)
  | .escape => (s.escape.1, s.escape.2.toList)
  | .leave => (s.pointerLeave.1, s.pointerLeave.2.toList)
  | .finish => (s.finish, [])

def feed (selecting : Bool) : DragState → List DragEvent → DragState × List Intent
  | s, [] => (s, [])
  | s, event :: rest =>
    let here := s.on selecting event
    let later := feed selecting here.1 rest
    (later.1, here.2 ++ later.2)

variable {selecting : Bool}

theorem feed_append (s : DragState) (first rest : List DragEvent) :
    s.feed selecting (first ++ rest) =
      let here := s.feed selecting first
      let later := here.1.feed selecting rest
      (later.1, here.2 ++ later.2) := by
  induction first generalizing s with
  | nil => simp [feed]
  | cons event more ih => simp [feed, ih]

/-! ## Between two rests -/

def ending : DragState → List Intent
  | committing => [.commit]
  | cancelled => [.cancel]
  | idle | armed .. | dragging .. => []

def Previews (direction : Direction) (shown : List Intent) : Prop :=
  ∀ intent ∈ shown, ∃ days day, intent = .preview direction days day

theorem previews_nil (direction : Direction) : Previews direction [] := by
  simp [Previews]

theorem previews_singleton (direction : Direction) (days : Int) (day : Date) :
    Previews direction [.preview direction days day] := by
  simp [Previews]

theorem Previews.append {direction : Direction} {shown more : List Intent}
    (h : Previews direction shown) (h' : Previews direction more) :
    Previews direction (shown ++ more) := by
  intro intent hmem
  rcases List.mem_append.1 hmem with hmem | hmem
  · exact h intent hmem
  · exact h' intent hmem

/-- The drag is not at rest, and what press it has is this one. -/
def Holds (direction : Direction) (startDay : Int) (s : DragState) : Prop :=
  s ≠ idle ∧ ∀ press, s.press? = some press → press = (direction, startDay)

theorem on_idle (selecting : Bool) (event : DragEvent) :
    idle.on selecting event = (idle, []) ∨
      ∃ isLeaf direction cell, event = .down isLeaf direction cell ∧
        allows selecting isLeaf direction = true ∧
        Holds direction cell.day (idle.on selecting event).1 ∧
        ∃ shown, Previews direction shown ∧
          (idle.on selecting event).2 = shown ++ (idle.on selecting event).1.ending := by
  cases event with
  | down isLeaf direction cell =>
    cases ha : allows selecting isLeaf direction with
    | false =>
      left
      simp [on, pointerDown, ha]
    | true =>
      refine Or.inr ⟨isLeaf, direction, cell, rfl, ha, ?_⟩
      cases direction with
      | create =>
        constructor
        · simp [on, pointerDown, ha, Holds, press?]
        · exact ⟨_, previews_singleton .create 0 cell.date, by simp [on, pointerDown, ha, ending]⟩
      | dragRight =>
        constructor
        · simp [on, pointerDown, ha, Holds, press?]
        · exact ⟨_, previews_singleton .dragRight 0 cell.date, by simp [on, pointerDown, ha, ending]⟩
      | left | right | both =>
        constructor
        · simp [on, pointerDown, ha, Holds, press?]
        · exact ⟨[], previews_nil _, by simp [on, pointerDown, ha, ending]⟩
  | move | up | escape | leave | finish => exact Or.inl rfl

section Held

variable {direction : Direction} {startDay : Int} {s : DragState}

theorem Holds.of_press? (press : s.press? = some (direction, startDay)) :
    Holds direction startDay s := by
  constructor
  · rintro rfl
    cases press
  · intro press' hpress
    rw [press] at hpress
    exact (Option.some.inj hpress).symm

theorem Holds.of_over (away : s ≠ idle) (ended : s.press? = none) : Holds direction startDay s := by
  refine ⟨away, fun press hpress => ?_⟩
  rw [ended] at hpress
  cases hpress

theorem Holds.cases (h : Holds direction startDay s) :
    s.press? = some (direction, startDay) ∨ s = committing ∨ s = cancelled := by
  obtain ⟨away, hpress⟩ := h
  cases s with
  | idle => exact absurd rfl away
  | armed d day => exact Or.inl (congrArg some (hpress _ rfl))
  | dragging d day days => exact Or.inl (congrArg some (hpress _ rfl))
  | committing => exact Or.inr (Or.inl rfl)
  | cancelled => exact Or.inr (Or.inr rfl)

theorem Holds.on_down (h : Holds direction startDay s) (isLeaf : Bool) (other : Direction)
    (cell : Cell) : s.on selecting (.down isLeaf other cell) = (s, []) := by
  simp [on, pointerDown, h.1]

theorem on_move_of_press? (press : s.press? = some (direction, startDay)) (cell : Cell) :
    s.on selecting (.move cell) =
      (dragging direction startDay (saturate (cell.day - startDay)),
        [.preview direction (saturate (cell.day - startDay)) cell.date]) := by
  simp [on, pointerMove, press]

theorem isActive_of_press? (press : s.press? = some (direction, startDay)) : s.isActive = true := by
  simp [isActive, press]

theorem ending_of_press? (press : s.press? = some (direction, startDay)) : s.ending = [] := by
  cases s with
  | idle | armed | dragging => rfl
  | committing | cancelled => cases press

theorem on_of_over (h : s = committing ∨ s = cancelled) (event : DragEvent) :
    s.on selecting event = (s, []) ∨ event = .finish := by
  rcases h with rfl | rfl <;> cases event <;> simp [on, pointerDown, pointerMove, pointerUp, escape,
    pointerLeave, isActive, press?]

/-- One step: unless it goes to rest, the drag stays at its press, and it gives more previews or the
one intent that it is over with. -/
theorem Holds.on (h : Holds direction startDay s) (event : DragEvent)
    (away : (s.on selecting event).1 ≠ idle) :
    Holds direction startDay (s.on selecting event).1 ∧ ∃ shown, Previews direction shown ∧
      s.ending ++ (s.on selecting event).2 = shown ++ (s.on selecting event).1.ending := by
  -- At its press the drag has given no last intent yet; once it is over it gives nothing more.
  rcases h.cases with press | ended
  · have hactive := isActive_of_press? press
    rw [ending_of_press? press]
    cases event with
    | down isLeaf other cell =>
      rw [h.on_down]
      exact ⟨h, [], previews_nil direction, by simp [ending_of_press? press]⟩
    | move cell =>
      rw [on_move_of_press? press]
      exact ⟨.of_press? rfl, _, previews_singleton direction (saturate (cell.day - startDay)) cell.date,
        by simp [ending]⟩
    | up =>
      simp only [DragState.on, pointerUp, hactive, if_true]
      exact ⟨.of_over (by simp) rfl, [], previews_nil direction, by simp [ending]⟩
    | escape =>
      simp only [DragState.on, DragState.escape, hactive, if_true]
      exact ⟨.of_over (by simp) rfl, [], previews_nil direction, by simp [ending]⟩
    | leave =>
      simp only [DragState.on, pointerLeave, press]
      split
      · exact ⟨.of_over (by simp) rfl, [], previews_nil direction, by simp [ending]⟩
      · exact ⟨h, [], previews_nil direction, by simp [ending_of_press? press]⟩
    | finish => exact absurd rfl away
  · rcases on_of_over ended event with hsame | rfl
    · rw [hsame]
      exact ⟨h, [], previews_nil direction, by simp⟩
    · exact absurd rfl away

theorem Holds.feed (h : Holds direction startDay s) {events : List DragEvent}
    (away : ∀ early, early <+: events → (s.feed selecting early).1 ≠ idle) :
    Holds direction startDay (s.feed selecting events).1 ∧ ∃ shown, Previews direction shown ∧
      s.ending ++ (s.feed selecting events).2 = shown ++ (s.feed selecting events).1.ending := by
  induction events generalizing s with
  | nil => exact ⟨h, [], previews_nil direction, by simp [DragState.feed]⟩
  | cons event rest ih =>
    have hstep := away [event] (by simp)
    simp only [DragState.feed] at hstep
    obtain ⟨hnext, shown, hshown, heq⟩ := h.on event hstep
    have hrest : ∀ early, early <+: rest →
        ((s.on selecting event).1.feed selecting early).1 ≠ idle := by
      intro early hearly
      simpa [DragState.feed] using away (event :: early) (by simpa using hearly)
    obtain ⟨hlast, more, hmore, heq'⟩ := ih hnext hrest
    refine ⟨hlast, shown ++ more, hshown.append hmore, ?_⟩
    simp only [DragState.feed]
    rw [← List.append_assoc, heq, List.append_assoc, heq', List.append_assoc]

theorem Holds.eq_finish (h : Holds direction startDay s) {event : DragEvent}
    (hidle : (s.on selecting event).1 = idle) : event = .finish := by
  rcases h.cases with press | ended
  · have hactive := isActive_of_press? press
    cases event with
    | down isLeaf other cell =>
      rw [h.on_down] at hidle
      exact absurd hidle h.1
    | move cell => simp [on_move_of_press? press] at hidle
    | up => simp [DragState.on, pointerUp, hactive] at hidle
    | escape => simp [DragState.on, DragState.escape, hactive] at hidle
    | leave =>
      simp only [DragState.on, pointerLeave, press] at hidle
      split at hidle
      · cases hidle
      · exact absurd hidle h.1
    | finish => rfl
  · rcases on_of_over ended event with hsame | rfl
    · rw [hsame] at hidle
      exact absurd hidle h.1
    · rfl

theorem on_of_open (selecting : Bool) {s : DragState} (hopen : s = idle ∨ s.isActive = true)
    {event : DragEvent} (hne : event ≠ .finish) :
    (s = idle ∧ s.on selecting event = (idle, [])) ∨
      (s.on selecting event).1 ≠ idle ∧ ∃ direction shown, Previews direction shown ∧
        (s.on selecting event).2 = shown ++ (s.on selecting event).1.ending := by
  rcases hopen with rfl | hactive
  · rcases on_idle selecting event with
      hignored | ⟨_, direction, cell, -, -, hholds, shown, hshown, heq⟩
    · exact Or.inl ⟨rfl, hignored⟩
    · exact Or.inr ⟨hholds.1, direction, shown, hshown, heq⟩
  · obtain ⟨⟨direction, startDay⟩, press⟩ := Option.isSome_iff_exists.1 hactive
    have hholds := Holds.of_press? press
    have haway : (s.on selecting event).1 ≠ idle := fun hidle => hne (hholds.eq_finish hidle)
    obtain ⟨-, shown, hshown, heq⟩ := hholds.on event haway
    rw [ending_of_press? press, List.nil_append] at heq
    exact Or.inr ⟨haway, direction, shown, hshown, heq⟩

/-! ## The protocol -/

/-- What comes of the next event when the drag goes back to a press in a direction and on a day. -/
structure Reacts (selecting : Bool) (direction : Direction) (startDay : Int) (s : DragState) :
    Prop where
  down : ∀ isLeaf other cell, s.on selecting (.down isLeaf other cell) = (s, [])
  move : ∀ cell, (s.on selecting (.move cell)).2 =
    if s.isActive then [.preview direction (saturate (cell.day - startDay)) cell.date] else []
  leave : s.on selecting .leave =
    if s.isActive ∧ direction.createsDates = true then (cancelled, [.cancel]) else (s, [])
  ended : s = committing ∨ s = cancelled → ∀ event, event ≠ .finish → s.on selecting event = (s, [])
  rests : ∀ event, (s.on selecting event).1 = idle → event = .finish ∧ (s.on selecting event).2 = []

theorem Holds.reacts (h : Holds direction startDay s) : Reacts selecting direction startDay s where
  down := h.on_down
  move cell := by
    rcases h.cases with press | ended
    · rw [on_move_of_press? press, if_pos (isActive_of_press? press)]
    · rcases ended with rfl | rfl <;> rfl
  leave := by
    rcases h.cases with press | ended
    · simp only [DragState.on, pointerLeave, press, isActive_of_press? press, true_and]
      split <;> rfl
    · rcases ended with rfl | rfl <;> rfl
  ended hended event hne := (on_of_over hended event).resolve_right hne
  rests event hidle := by
    obtain rfl := h.eq_finish hidle
    exact ⟨rfl, rfl⟩

end Held

theorem allows_iff (isLeaf : Bool) (direction : Direction) :
    allows selecting isLeaf direction = true ↔
      isLeaf = true ∨ selecting = true ∧ direction ≠ .create ∧ direction ≠ .dragRight := by
  cases direction <;> simp [allows, Direction.createsDates]

theorem mem_told_iff {direction : Direction} {shown : List Intent} (h : Previews direction shown)
    {intent : Intent} (other : ∀ days day, intent ≠ .preview direction days day) (s : DragState) :
    intent ∈ shown ++ s.ending ↔ intent ∈ s.ending := by
  rw [List.mem_append, or_iff_right]
  intro hmem
  obtain ⟨days, day, heq⟩ := h intent hmem
  exact other days day heq

theorem commit_mem_ending (s : DragState) : .commit ∈ s.ending ↔ s = committing := by
  cases s <;> simp [ending]

theorem cancel_mem_ending (s : DragState) : .cancel ∈ s.ending ↔ s = cancelled := by
  cases s <;> simp [ending]

/-- An event that leaves the drag at rest gives no intent. One that ends the rest is an allowed press,
and until the next rest the intents are previews in its direction, and one commit or cancel at the end
if the drag is over. -/
theorem drag_protocol (selecting : Bool) {before : List DragEvent}
    (resting : (idle.feed selecting before).1 = idle) (event : DragEvent) :
    ((idle.feed selecting (before ++ [event])).1 = idle →
      (idle.feed selecting (before ++ [event])).2 = (idle.feed selecting before).2) ∧
    ∀ rest,
      (∀ early, early <+: rest → (idle.feed selecting (before ++ event :: early)).1 ≠ idle) →
      ∃ isLeaf direction cell told shown, event = .down isLeaf direction cell ∧
        (isLeaf = true ∨ selecting = true ∧ direction ≠ .create ∧ direction ≠ .dragRight) ∧
        let now := (idle.feed selecting (before ++ event :: rest)).1
        (idle.feed selecting (before ++ event :: rest)).2 = (idle.feed selecting before).2 ++ told ∧
        told = shown ++ now.ending ∧ Previews direction shown ∧
        (.commit ∈ told ↔ now = committing) ∧ (.cancel ∈ told ↔ now = cancelled) ∧
        Reacts selecting direction cell.day now := by
  -- From a state of rest on, a drag goes as it would from the start.
  have hfrom : ∀ events, idle.feed selecting (before ++ events) =
      ((idle.feed selecting events).1,
        (idle.feed selecting before).2 ++ (idle.feed selecting events).2) := by
    intro events
    simp [feed_append, resting]
  simp only [hfrom, feed]
  rcases on_idle selecting event with
    hignored | ⟨isLeaf, direction, cell, rfl, hallowed, hholds, first, hfirst, heq⟩
  · rw [hignored]
    refine ⟨fun _ => by simp, fun rest away => ?_⟩
    exact absurd rfl (away [] (by simp))
  · refine ⟨fun hidle => absurd hidle hholds.1, fun rest away => ?_⟩
    obtain ⟨hlast, more, hmore, heq'⟩ := hholds.feed away
    have hshown := hfirst.append hmore
    refine ⟨isLeaf, direction, cell, _, first ++ more, rfl, (allows_iff isLeaf direction).1 hallowed,
      rfl, ?_, hshown, ?_, ?_, hlast.reacts⟩
    all_goals rw [heq, List.append_assoc, heq', ← List.append_assoc]
    · exact (mem_told_iff hshown (by simp) _).trans (commit_mem_ending _)
    · exact (mem_told_iff hshown (by simp) _).trans (cancel_mem_ending _)

/-- After a bar has been dropped, a new bar is drawn from day 2. A press on day 9 on the way is ignored,
so the move to day 7 is one by five days; and leaving the row cancels. -/
theorem drag_protocol_drawn_bar :
    let cell (day : Int) : Cell := Cell.at .epoch day
    let before : List DragEvent := [.down true .both (cell 3), .up, .finish]
    let press : DragEvent := .down true .dragRight (cell 2)
    let rest : List DragEvent := [.down false .left (cell 9), .move (cell 7)]
    let now := idle.feed true (before ++ press :: rest)
    (idle.feed true before).1 = idle ∧
      (∀ early, early <+: rest → (idle.feed true (before ++ press :: early)).1 ≠ idle) ∧
      now.2 = [.commit, .preview .dragRight 0 (cell 2).date, .preview .dragRight 5 (cell 7).date] ∧
      Reacts true .dragRight 2 now.1 ∧ now.1.on true .leave = (cancelled, [.cancel]) := by
  intro cell before press rest now
  have resting : (idle.feed true before).1 = idle := by decide
  have away : ∀ early, early <+: rest → (idle.feed true (before ++ press :: early)).1 ≠ idle := by
    intro early hearly
    simp only [rest, List.prefix_cons_iff, List.prefix_nil] at hearly
    obtain rfl | ⟨_, rfl, rfl | ⟨_, rfl, rfl⟩⟩ := hearly <;> decide
  have hactive : now.1.isActive = true := by decide
  obtain ⟨-, hstretch⟩ := drag_protocol true resting press
  obtain ⟨_, _, _, _, _, heq, -, -, -, -, -, -, hreacts⟩ := hstretch rest away
  obtain ⟨-, rfl, rfl⟩ := DragEvent.down.inj heq
  refine ⟨resting, away, by decide, hreacts, ?_⟩
  rw [hreacts.leave, if_pos ⟨hactive, rfl⟩]

end DragState

end Draftboard.Timeline
