import Draftboard.Proofs.Timeline.Dates
import Draftboard.Proofs.Desk.RowsInStep
import Draftboard.Proofs.Desk.Registry
/-!
# Previews of a drag

Which dates a drag writes is decided by its direction and the pristine snapshot, so each preview takes
the place of the one before. Only the last place of the pointer counts, and back on the day of the press
nothing is left of the drag.
-/

namespace Draftboard

namespace Changeset

theorem setValues_of_covers (c : Changeset) {first later : List (String × AttrValue)}
    (covers : ∀ name, lastWritten? name later = none → lastWritten? name first = none) :
    (c.setValues first).setValues later = c.setValues later := by
  have hchanges : ((c.setValues first).setValues later).changes = (c.setValues later).changes := by
    refine Std.ExtTreeMap.ext_getElem? fun name => ?_
    simp only [getElem?_changes_setValues, pristine_setValues]
    cases hl : lastWritten? name later with
    | some value => rfl
    | none => simp only [covers name hl]
  rw [setValues_eq (c.setValues first) later, hchanges, setValues_eq c first, setValues_eq c later]

theorem setValues_of_pristine (c : Changeset) {writes : List (String × AttrValue)}
    (pristine : ∀ name value, lastWritten? name writes = some value →
      c.changes[name]? = none ∧ value = c.pristine.value name) : c.setValues writes = c := by
  have hchanges : (c.setValues writes).changes = c.changes := by
    refine Std.ExtTreeMap.ext_getElem? fun name => ?_
    rw [getElem?_changes_setValues]
    cases hl : lastWritten? name writes with
    | none => rfl
    | some value =>
      obtain ⟨hunmodified, rfl⟩ := pristine name value hl
      simp [hunmodified]
  rw [setValues_eq, hchanges]

end Changeset

/-! ## Previews on the desk -/

def Part.drafting : List Part := [.edits, .flags, .drafts, .filed, .unfiled, .pushes]

namespace Desk

/-- Change-sets have come, gone or changed, and views have been told. -/
def OnlyDrafts (d d' : Desk) : Prop :=
  ∃ drafts lastHandle registry more,
    d' = { d with drafts, lastHandle, registry, deliveries := d.deliveries ++ more }

theorem OnlyDrafts.refl (d : Desk) : d.OnlyDrafts d :=
  ⟨d.drafts, d.lastHandle, d.registry, [], by simp⟩

theorem OnlyDrafts.trans {first middle last : Desk} (h : first.OnlyDrafts middle)
    (h' : middle.OnlyDrafts last) : first.OnlyDrafts last := by
  obtain ⟨_, _, _, more, rfl⟩ := h
  obtain ⟨drafts, lastHandle, registry, more', rfl⟩ := h'
  exact ⟨drafts, lastHandle, registry, more ++ more', by rw [List.append_assoc]⟩

theorem OnlyDrafts.server {d d' : Desk} (h : d.OnlyDrafts d') : d'.server = d.server := by
  obtain ⟨_, _, _, _, rfl⟩ := h
  rfl

theorem OnlyDrafts.clock {d d' : Desk} (h : d.OnlyDrafts d') : d'.clock = d.clock := by
  obtain ⟨_, _, _, _, rfl⟩ := h
  rfl

theorem OnlyDrafts.notices {d d' : Desk} (h : d.OnlyDrafts d') : d'.notices = d.notices := by
  obtain ⟨_, _, _, _, rfl⟩ := h
  rfl

theorem OnlyDrafts.cache {d d' : Desk} (h : d.OnlyDrafts d') : d'.cache = d.cache := by
  obtain ⟨_, _, _, _, rfl⟩ := h
  rfl

theorem OnlyDrafts.bus {d d' : Desk} (h : d.OnlyDrafts d') : d'.bus = d.bus := by
  obtain ⟨_, _, _, _, rfl⟩ := h
  rfl

theorem OnlyDrafts.hooks {d d' : Desk} (h : d.OnlyDrafts d') : d'.hooks = d.hooks := by
  obtain ⟨_, _, _, _, rfl⟩ := h
  rfl

theorem OnlyDrafts.views {d d' : Desk} (h : d.OnlyDrafts d') : d'.views = d.views := by
  obtain ⟨_, _, _, _, rfl⟩ := h
  rfl

theorem Change.onlyDrafts {d d' : Desk} {part : Part} (mem : part ∈ Part.drafting)
    (change : d.Change part d') : d.OnlyDrafts d' := by
  cases change with
  | edit | flag | draft | file | unfile => exact ⟨_, _, _, [], by rw [List.append_nil] <;> rfl⟩
  | push id => exact ⟨_, _, _, _, rfl⟩
  | _ => exact absurd mem (by decide)

theorem Changes.onlyDrafts {d d' : Desk} {parts : List Part} (changes : d.Changes parts d')
    (within : parts ⊆ Part.drafting) : d.OnlyDrafts d' :=
  changes.lift .refl .trans fun mem change => change.onlyDrafts (within mem)

section Writing

variable (d : Desk) (h : Handle) (writes : List (String × AttrValue))

theorem exists_setValues :
    ∃ more, d.setValues h writes =
      { d.modifyQuietly h fun _ => (d.changeset h).setValues writes with
        deliveries := d.deliveries ++ more } :=
  d.exists_edit h fun c => (c.setValues writes, ())

theorem registry_setValues : (d.setValues h writes).registry = d.registry := by
  obtain ⟨more, heq⟩ := d.exists_setValues h writes
  rw [heq]
  rfl

theorem drafts_setValues :
    (d.setValues h writes).drafts =
      (d.modifyQuietly h fun _ => (d.changeset h).setValues writes).drafts := by
  obtain ⟨more, heq⟩ := d.exists_setValues h writes
  rw [heq]

theorem changeset_setValues :
    (d.setValues h writes).changeset h =
      if d.drafts[h]?.isSome then (d.changeset h).setValues writes else d.changeset h := by
  rw [changeset, drafts_setValues, ← changeset]
  split
  · rename_i known
    rw [changeset_modifyQuietly d h h _ known, if_pos rfl]
  · rename_i unknown
    rw [Bool.not_eq_true, Option.isSome_eq_false_iff, Option.isNone_iff_eq_none] at unknown
    simp [changeset, modifyQuietly, unknown]

theorem isSome_drafts_setValues :
    (d.setValues h writes).drafts[h]?.isSome = d.drafts[h]?.isSome :=
  ((d.changes_setValues h writes).keepsDrafts (by decide) (by decide)).isSome h

end Writing

end Desk

namespace Row

open Timeline

/-! ## Moves -/

def moveAll (r : Row) (d : Desk) (cells : List Cell) : RowStep :=
  cells.foldl (fun (d, r, _) cell => r.moveToCell d cell) (d, r, none)

section Moves

variable {r : Row} {d : Desk} {direction : Direction} {startDay : Int}

theorem changeset_preview_preview (r : Row) (d : Desk) (direction : Direction) (days days' : Int)
    (day day' : Date) :
    (r.preview (r.preview d direction days day) direction days' day').changeset r.handle =
      (r.preview d direction days' day').changeset r.handle := by
  simp only [preview, Desk.changeset_setValues, Desk.isSome_drafts_setValues]
  split
  · rw [Changeset.pristine_setValues]
    exact Changeset.setValues_of_covers _
      (alike_dates r.renderer _ direction day' day days' days).covers
  · rfl

def draggedTo (r : Row) (direction : Direction) (startDay : Int) (cell : Cell) : Row :=
  { r with drag := .dragging direction startDay (saturate (cell.day - startDay)) }

def previewAt (r : Row) (d : Desk) (direction : Direction) (startDay : Int) (cell : Cell) : Desk :=
  r.preview d direction (saturate (cell.day - startDay)) cell.date

theorem moveToCell_of_press? (press : r.drag.press? = some (direction, startDay)) (cell : Cell) :
    r.moveToCell d cell =
      (r.previewAt d direction startDay cell, r.draggedTo direction startDay cell, none) := by
  simp only [moveToCell, DragState.pointerMove, press]
  rfl

theorem moveAll_cons (press : r.drag.press? = some (direction, startDay)) (d : Desk) (cell : Cell)
    (rest : List Cell) :
    r.moveAll d (cell :: rest) =
      (r.draggedTo direction startDay cell).moveAll (r.previewAt d direction startDay cell) rest := by
  unfold moveAll
  rw [List.foldl_cons]
  dsimp only
  rw [moveToCell_of_press? press]

theorem moveAll_keeps (press : r.drag.press? = some (direction, startDay)) {P : Desk → Prop}
    (kept : ∀ d writes, P d → P (d.setValues r.handle writes)) (cells : List Cell) (h : P d) :
    P (r.moveAll d cells).1 := by
  induction cells generalizing r d with
  | nil => exact h
  | cons cell rest ih =>
    rw [moveAll_cons press]
    exact ih (r := r.draggedTo direction startDay cell) rfl kept (kept d _ h)

/-- While the pointer moves, the row stays at its press. -/
structure Moves (direction : Direction) (startDay : Int) (r moved : Row) : Prop where
  press : moved.drag.press? = some (direction, startDay)
  row : moved = { r with drag := moved.drag }

theorem Moves.handle {moved : Row} (moves : Moves direction startDay r moved) :
    moved.handle = r.handle := by
  rw [moves.row]

theorem moves_moveAll (press : r.drag.press? = some (direction, startDay)) (d : Desk)
    (cells : List Cell) : Moves direction startDay r (r.moveAll d cells).2.1 := by
  induction cells generalizing r d with
  | nil => exact ⟨press, rfl⟩
  | cons cell rest ih =>
    rw [moveAll_cons press]
    have hrest := ih (r := r.draggedTo direction startDay cell) rfl
      (r.previewAt d direction startDay cell)
    exact ⟨hrest.press, hrest.row⟩

/-- Of all moves only the last one counts. -/
theorem changeset_moveAll (press : r.drag.press? = some (direction, startDay)) (d : Desk)
    (cells : List Cell) (last : Cell) :
    (r.moveAll d (cells ++ [last])).1.changeset r.handle =
      (r.previewAt d direction startDay last).changeset r.handle := by
  induction cells generalizing r d with
  | nil =>
    rw [List.nil_append, moveAll_cons press]
    rfl
  | cons cell rest ih =>
    rw [List.cons_append, moveAll_cons press]
    have hrest := ih (r := r.draggedTo direction startDay cell) rfl
      (r.previewAt d direction startDay cell)
    exact hrest.trans (changeset_preview_preview r d direction _ _ _ _)

end Moves

/-! ## A press, moves and a release -/

section Drag

variable {r : Row} {d : Desk} {direction : Direction}

/-- A press in this direction starts a drag. -/
structure Accepts (r : Row) (d : Desk) (direction : Direction) : Prop where
  idle : r.drag = .idle
  allowed : DragState.allows r.view.selecting (r.refreshed d).workPackage.isLeaf direction = true

def taken (r : Row) (d : Desk) : Desk × Handle := d.changeFor (r.refreshed d).workPackage none

def pressed (r : Row) (d : Desk) (direction : Direction) (cell : Cell) : Row :=
  { r.refreshed d with drag := .armed direction cell.day, handle := (r.taken d).2 }

theorem pointerDown_of_allows {selecting isLeaf : Bool}
    (allowed : DragState.allows selecting isLeaf direction = true) (bar : direction ≠ .create)
    (cell : Cell) :
    DragState.pointerDown selecting isLeaf direction cell .idle =
      (.armed direction cell.day,
        if direction = .dragRight then [.preview direction 0 cell.date] else []) := by
  rw [DragState.pointerDown.eq_def, if_pos ⟨rfl, allowed⟩]
  cases direction with
  | create => exact absurd rfl bar
  | left | right | both | dragRight => rfl

theorem pressCell_of_accepts (accepts : r.Accepts d direction) (bar : direction ≠ .create)
    (cell : Cell) :
    r.pressCell d direction cell =
      (if direction = .dragRight then
          (r.pressed d direction cell).preview (r.taken d).1 direction 0 cell.date
        else (r.taken d).1,
        r.pressed d direction cell, none) := by
  have hdown : DragState.pointerDown (r.refreshed d).view.selecting (r.refreshed d).workPackage.isLeaf
      direction cell (r.refreshed d).drag =
      (.armed direction cell.day,
        if direction = .dragRight then [.preview direction 0 cell.date] else []) := by
    rw [show (r.refreshed d).drag = .idle from accepts.idle]
    exact pointerDown_of_allows accepts.allowed bar cell
  unfold pressCell
  dsimp only
  rw [hdown, if_neg (by simp)]
  split <;> rfl

theorem pointerUp_of_isActive (active : r.drag.isActive = true) (d : Desk) :
    r.pointerUp d = ({ r with drag := .committing } : Row).deactivate d false := by
  simp only [pointerUp, DragState.pointerUp, active, if_true]
  rfl

/-- With dates in order and no date edited, a bar that is back on the day of the press is as it was. -/
theorem changeset_preview_zero (standard : r.renderer = .standard)
    (ordered : Ordered (d.changeset r.handle).pristine) (bar : direction.createsDates = false)
    (start : (d.changeset r.handle).changes[Attribute.startDate]? = none)
    (due : (d.changeset r.handle).changes[Attribute.dueDate]? = none) (day : Date) :
    (r.preview d direction 0 day).changeset r.handle = d.changeset r.handle := by
  rw [preview, Desk.changeset_setValues, standard]
  split
  · refine Changeset.setValues_of_pristine _ fun name value written => ?_
    obtain ⟨hname, hvalue⟩ := pristine_of_edits_zero ordered day bar written
    refine ⟨?_, hvalue⟩
    rcases hname with rfl | rfl
    · exact start
    · exact due
  · rfl

/-- However the pointer has moved since an accepted press, the change-set is as if it had been moved to
the last place at once. Back on the day of the press, a bar with its dates in order leaves the change-set
as it was taken; and if that was empty, the release sends nothing. -/
theorem preview_path_independent (accepts : r.Accepts d direction) (bar : direction ≠ .create)
    (cell : Cell) (moves : List Cell) (last : Cell) :
    let step := r.pressCell d direction cell
    let moved := step.2.1.moveAll step.1 (moves ++ [last])
    let straight := step.2.1.moveToCell step.1 last
    let h := step.2.1.handle
    let before := (r.taken d).1.changeset h
    h = (r.taken d).2 ∧ moved.2.1.handle = h ∧ moved.1.changeset h = straight.1.changeset h ∧
    (direction.createsDates = false → r.renderer = .standard → last.day = cell.day →
      Ordered before.pristine → before.changes[Attribute.startDate]? = none →
      before.changes[Attribute.dueDate]? = none →
      moved.1.changeset h = before ∧
      (before.isEmpty = true →
        let released := moved.2.1.pointerUp moved.1
        released.2.2 = some .noChange ∧ released.1.server = d.server ∧
          released.1.notices = d.notices)) := by
  intro step moved straight h before
  have hpressed := pressCell_of_accepts accepts bar cell
  have hrow : step.2.1 = r.pressed d direction cell := congrArg (·.2.1) hpressed
  have hpress : step.2.1.drag.press? = some (direction, cell.day) := by rw [hrow]; rfl
  have hmoved : Moves direction cell.day step.2.1 moved.2.1 := moves_moveAll hpress step.1 (moves ++ [last])
  have hhandle : moved.2.1.handle = h := hmoved.handle
  have hlast := changeset_moveAll hpress step.1 moves last
  refine ⟨by rw [show h = step.2.1.handle from rfl, hrow]; rfl, hhandle, ?_, ?_⟩
  · show moved.1.changeset h = (step.2.1.moveToCell step.1 last).1.changeset h
    rw [moveToCell_of_press? hpress]
    exact hlast
  intro bar' standard back ordered start due
  have hdesk : step.1 = (r.taken d).1 := by
    refine (congrArg (·.1) hpressed).trans (if_neg ?_)
    rintro rfl
    cases bar'
  have hbefore : moved.1.changeset h = before := by
    refine hlast.trans ?_
    rw [previewAt, back, Int.sub_self, hdesk]
    exact changeset_preview_zero (by rw [hrow]; exact standard) ordered bar' start due last.date
  refine ⟨hbefore, fun empty => ?_⟩
  intro released
  have hactive : moved.2.1.drag.isActive = true := congrArg Option.isSome hmoved.press
  -- The change-set is empty again, so the drag has nothing to save.
  have hreleased : released = ({ moved.2.1 with drag := .committing } : Row).land moved.1 .noChange := by
    refine (pointerUp_of_isActive hactive moved.1).trans ?_
    have hempty : (moved.1.changeset moved.2.1.handle).isEmpty = true := by
      rw [hhandle, hbefore]
      exact empty
    rw [deactivate_eq, if_neg (by simp), if_pos hempty]
  have hdrafts : d.OnlyDrafts released.1 := by
    rw [hreleased]
    have htaken : d.OnlyDrafts step.1 := hdesk ▸ (d.changes_changeFor _ none).onlyDrafts (by decide)
    have honly : d.OnlyDrafts moved.1 := moveAll_keeps hpress
      (fun _ _ hd => hd.trans ((Desk.changes_setValues ..).onlyDrafts (by decide))) (moves ++ [last]) htaken
    exact honly.trans ((moved.1.changes_reset moved.2.1.handle).onlyDrafts (by decide))
  exact ⟨congrArg (·.2.2) hreleased, hdrafts.server, hdrafts.notices⟩

theorem preview_path_independent_there_and_back :
    let x : Snapshot :=
      { id := { text := "7" }, lockVersion := 3, typeHref := "task"
        attributes := ((∅ : Attributes).insert Attribute.startDate (.date (Date.shift .epoch 2))).insert
          Attribute.dueDate (.date (Date.shift .epoch 6)) }
    let made := make { server := ({} : Server).insert x } { pixelsPerDay := 10.0, start := .epoch } x []
    let cell := Cell.at .epoch 3
    let step := made.2.pressCell made.1 .both cell
    let moved := step.2.1.moveAll step.1 ([Cell.at .epoch 5, Cell.at .epoch (-400)] ++ [cell])
    let released := moved.2.1.pointerUp moved.1
    made.2.Accepts made.1 .both ∧ moved.1.changeset moved.2.1.handle = { pristine := x } ∧
      released.2.2 = some .noChange ∧ released.1.server = made.1.server ∧ released.1.notices = [] := by
  intro x made cell
  have accepts : made.2.Accepts made.1 .both := ⟨by decide +kernel, by decide +kernel⟩
  have hbefore : (made.2.taken made.1).1.changeset (made.2.pressCell made.1 .both cell).2.1.handle =
      { pristine := x } := by
    decide +kernel
  have hunedited : ∀ name : String, (({ pristine := x } : Changeset).changes)[name]? = none := by
    simp
  have hdates : (x.value Attribute.startDate).asDate? = some (Date.shift .epoch 2) ∧
      (x.value Attribute.dueDate).asDate? = some (Date.shift .epoch 6) := by
    decide +kernel
  have ordered : Ordered ({ pristine := x } : Changeset).pristine := by
    intro start due hstart hdue
    rw [← Option.some.inj (hdates.1.symm.trans hstart), ← Option.some.inj (hdates.2.symm.trans hdue)]
    decide +kernel
  obtain ⟨-, hhandle, -, hback⟩ := preview_path_independent accepts (by decide) cell
    [Cell.at .epoch 5, Cell.at .epoch (-400)] cell
  rw [hbefore] at hback
  obtain ⟨hsame, hreleased⟩ := hback rfl rfl rfl ordered (hunedited _) (hunedited _)
  obtain ⟨houtcome, hserver, hnotices⟩ := hreleased rfl
  rw [← hhandle] at hsame
  exact ⟨accepts, hsame, houtcome, hserver, hnotices⟩

end Drag

/-! ## Drawing a bar -/

theorem changeset_of_moves {r : Row} {d : Desk} {direction : Direction} (filed : d.Filed)
    (accepts : r.Accepts d direction) (bar : direction ≠ .create) (cell : Cell) (moves : List Cell)
    (last : Cell) :
    let step := r.pressCell d direction cell
    let moved := step.2.1.moveAll step.1 (moves ++ [last])
    let before := step.1.changeset step.2.1.handle
    moved.1.changeset moved.2.1.handle = before.setValues
      (r.renderer.dates before.pristine last.date (saturate (last.day - cell.day)) direction).edits := by
  intro step moved before
  have hstep : step = _ := pressCell_of_accepts accepts bar cell
  have hpress : step.2.1.drag.press? = some (direction, cell.day) := by
    rw [hstep]
    rfl
  have hrenderer : step.2.1.renderer = r.renderer := by
    rw [hstep]
    rfl
  have hknown : step.1.drafts[step.2.1.handle]?.isSome = true := by
    rw [hstep]
    dsimp only
    split
    · exact (Desk.isSome_drafts_setValues _ _ _).trans (Desk.known_changeFor filed _ none)
    · exact Desk.known_changeFor filed _ none
  have hlast := changeset_moveAll hpress step.1 moves last
  rw [previewAt, preview, Desk.changeset_setValues, if_pos hknown, hrenderer] at hlast
  rw [(moves_moveAll hpress step.1 (moves ++ [last])).handle]
  exact hlast

/-- A bar that is drawn runs from the earlier one to the later one of the day of the press and the day
of the last move, wherever the pointer has been in between. -/
theorem drawn_bar_spans {r : Row} {d : Desk} (filed : d.Filed) (idle : r.drag = .idle)
    (leaf : (r.refreshed d).workPackage.isLeaf = true) (standard : r.renderer = .standard)
    {press last : Int} (pressed : r.view.start.Reaches press) (shown : r.view.start.Reaches last)
    (moves : List Int) :
    let cell := Cell.at r.view.start
    let step := r.pressCell d .dragRight (cell press)
    let moved := step.2.1.moveAll step.1 (moves.map cell ++ [cell last])
    let c := moved.1.changeset moved.2.1.handle
    ∃ start due : Date,
      start.day = r.view.start.day + min press last ∧ due.day = r.view.start.day + max press last ∧
      c.value Attribute.startDate = .date start ∧ c.value Attribute.dueDate = .date due := by
  intro cell step moved c
  have accepts : r.Accepts d .dragRight := ⟨idle, by simp [DragState.allows, leaf]⟩
  have hmoved : c = _ :=
    changeset_of_moves filed accepts (by decide) (cell press) (moves.map cell) (cell last)
  rw [standard] at hmoved
  have hbar := movedDates_dragRight (step.1.changeset step.2.1.handle).pristine pressed shown
  have hc : c = _ :=
    hmoved.trans (congrArg (fun dates => Changeset.setValues _ (DateValues.edits dates)) hbar)
  refine ⟨min (r.view.start.shift press) (r.view.start.shift last),
    max (r.view.start.shift press) (r.view.start.shift last), ?_, ?_, ?_, ?_⟩
  · rw [Date.day_min, Date.day_shift_of_reaches pressed, Date.day_shift_of_reaches shown]
    omega
  · rw [Date.day_max, Date.day_shift_of_reaches pressed, Date.day_shift_of_reaches shown]
    omega
  · rw [hc]
    exact value_of_written (lastWritten?_edits_startDate _)
  · rw [hc]
    exact value_of_written (lastWritten?_edits_dueDate _)

theorem drawn_bar_spans_to_the_left :
    let x : Snapshot := { id := { text := "7" }, lockVersion := 3, typeHref := "task" }
    let made := make { server := ({} : Server).insert x } { pixelsPerDay := 10.0, start := .epoch } x []
    let cell := Cell.at .epoch
    let step := made.2.pressCell made.1 .dragRight (cell 2)
    let moved := step.2.1.moveAll step.1 ([Calendar.lastDay + 1, 8].map cell ++ [cell (-3)])
    let c := moved.1.changeset moved.2.1.handle
    made.2.drag = .idle ∧ (cell (Calendar.lastDay + 1)).date = .epoch ∧
      ∃ start due : Date, start.day = -3 ∧ due.day = 2 ∧
        c.value Attribute.startDate = .date start ∧ c.value Attribute.dueDate = .date due := by
  intro x made cell
  have filed : made.1.Filed :=
    { keyed := fun id y hy => by simp [made, make, Desk.newDraft, PackageCache.get?] at hy
      known := fun hr => by simp [made, make, Desk.newDraft] at hr
      id_eq := fun hr => by simp [made, make, Desk.newDraft] at hr }
  refine ⟨rfl, by decide +kernel, ?_⟩
  have leaf : (made.2.refreshed made.1).workPackage.isLeaf = true := by decide +kernel
  have pressed : made.2.view.start.Reaches 2 := by decide +kernel
  have shown : made.2.view.start.Reaches (-3) := by decide +kernel
  obtain ⟨start, due, hstart, hdue, hc⟩ :=
    drawn_bar_spans filed rfl leaf rfl pressed shown [Calendar.lastDay + 1, 8]
  exact ⟨start, due, hstart, hdue, hc⟩

end Row

end Draftboard
