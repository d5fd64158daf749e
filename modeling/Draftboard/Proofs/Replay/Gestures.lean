import Draftboard.Proofs.Desk.Drops
import Draftboard.Proofs.Desk.Previews
import Draftboard.Proofs.Replay.Steps
/-!
# What a gesture comes to

A drag edits a change-set and gives it up again. If it is committed, its row saves once in between, and
all that others get to see of the drag comes from that save.
-/

namespace Draftboard

/-! ## Drags -/

namespace Row

open Timeline

/-- A row in a later state of the same drag. -/
structure ActsFor (acting r : Row) : Prop where
  workPackage : acting.workPackage = r.workPackage
  publishesEvents : acting.publishesEvents = r.publishesEvents

theorem ActsFor.refl (r : Row) : r.ActsFor r := ⟨rfl, rfl⟩

theorem ActsFor.trans {first middle last : Row} (h : first.ActsFor middle) (h' : middle.ActsFor last) :
    first.ActsFor last :=
  ⟨h.workPackage.trans h'.workPackage, h.publishesEvents.trans h'.publishesEvents⟩

/-- What has become of the desk by an outcome, or with none while the drag goes on. -/
inductive ComesTo (r : Row) (d : Desk) : Desk → Option Outcome → Prop
  | unsaved {d' : Desk} {outcome : Option Outcome} (edits : d.OnlyDrafts d')
      (unsaved : outcome = none ∨ outcome = some .noChange ∨ outcome = some .cancelled) :
      ComesTo r d d' outcome
  | saved {ready d' : Desk} {acting : Row} (acts : acting.ActsFor r) (edits : d.OnlyDrafts ready)
      (left : (acting.save ready).1.OnlyDrafts d') : ComesTo r d d' (some (acting.save ready).2)

section ComesTo

variable {r : Row} {d middle d' : Desk} {outcome : Option Outcome}

theorem ComesTo.after (comes : r.ComesTo middle d' outcome) (edits : d.OnlyDrafts middle) :
    r.ComesTo d d' outcome := by
  cases comes with
  | unsaved later unsaved => exact .unsaved (edits.trans later) unsaved
  | saved acts later left => exact .saved acts (edits.trans later) left

theorem ComesTo.onlyDrafts (comes : r.ComesTo d d' none) : d.OnlyDrafts d' := by
  cases comes with
  | unsaved edits _ => exact edits

theorem ComesTo.of_actsFor {acting : Row} (comes : acting.ComesTo d d' outcome)
    (acts : acting.ActsFor r) : r.ComesTo d d' outcome := by
  cases comes with
  | unsaved edits unsaved => exact .unsaved edits unsaved
  | saved later edits left => exact .saved (later.trans acts) edits left

end ComesTo

theorem comesTo_deactivate (r : Row) (d : Desk) (cancelled : Bool) :
    r.ComesTo d (r.deactivate d cancelled).1 (r.deactivate d cancelled).2.2 := by
  rw [deactivate_eq]
  split
  · exact .unsaved ((d.changes_reset r.handle).onlyDrafts (by decide)) (Or.inr (Or.inr rfl))
  · split
    · exact .unsaved ((d.changes_reset r.handle).onlyDrafts (by decide)) (Or.inr (Or.inl rfl))
    · exact .saved (.refl r) (.refl d) ((Desk.changes_reset _ r.handle).onlyDrafts (by decide))

/-- What an event on a row gives. As long as the drag goes on, its row acts for the one before. -/
structure Advances (r : Row) (d : Desk) (step : RowStep) : Prop where
  comesTo : r.ComesTo d step.1 step.2.2
  goesOn : step.2.2 = none → step.2.1.ActsFor r

theorem Advances.after {r : Row} {d middle : Desk} {step : RowStep} (advances : r.Advances middle step)
    (edits : d.OnlyDrafts middle) : r.Advances d step :=
  ⟨advances.comesTo.after edits, advances.goesOn⟩

theorem Advances.of_actsFor {r acting : Row} {d : Desk} {step : RowStep}
    (advances : acting.Advances d step) (acts : acting.ActsFor r) : r.Advances d step :=
  ⟨advances.comesTo.of_actsFor acts, fun goesOn => (advances.goesOn goesOn).trans acts⟩

theorem advances_apply (r : Row) (d : Desk) (intent : Intent) : r.Advances d (r.apply d intent) := by
  cases intent with
  | preview direction days day =>
    have hpreview := (changes_preview r d direction days day).onlyDrafts (by decide)
    exact ⟨.unsaved hpreview (Or.inl rfl), fun _ => .refl r⟩
  | commit => exact ⟨comesTo_deactivate r d false, nofun⟩
  | cancel => exact ⟨comesTo_deactivate r d true, nofun⟩

theorem advances_applyAll (r : Row) (d : Desk) {intents : List Intent} (few : Few intents) :
    r.Advances d (r.applyAll d intents) := by
  cases few with
  | none => exact ⟨.unsaved (.refl d) (Or.inl rfl), fun _ => .refl r⟩
  | one intent => exact advances_apply r d intent
  | shown direction days day intent =>
    exact (advances_apply r (r.preview d direction days day) intent).after
      ((changes_preview r d direction days day).onlyDrafts (by decide))

theorem advances_pressCell {r : Row} {d : Desk}
    (cached : d.cache.get? r.workPackage.id = some r.workPackage) (direction : Direction) (cell : Cell) :
    r.Advances d (r.pressCell d direction cell) := by
  have hrow : (r.refreshed d).ActsFor r := by
    refine ⟨?_, rfl⟩
    rw [refreshed, cached]
    rfl
  have hfew := few_pointerDown (r.refreshed d).view.selecting (r.refreshed d).workPackage.isLeaf
    direction cell (r.refreshed d).drag
  unfold pressCell
  dsimp only
  split
  · exact (advances_applyAll _ d hfew).of_actsFor ⟨hrow.workPackage, hrow.publishesEvents⟩
  · refine ((advances_applyAll _ _ hfew).of_actsFor ?_).after
      ((d.changes_changeFor (r.refreshed d).workPackage none).onlyDrafts (by decide))
    exact ⟨hrow.workPackage, hrow.publishesEvents⟩

theorem moveToCell_goesOn (r : Row) (d : Desk) (cell : Cell) :
    d.OnlyDrafts (r.moveToCell d cell).1 ∧ (r.moveToCell d cell).2.1.ActsFor r := by
  unfold moveToCell DragState.pointerMove
  cases r.drag.press? with
  | none => exact ⟨.refl d, rfl, rfl⟩
  | some press => exact ⟨(changes_preview ..).onlyDrafts (by decide), rfl, rfl⟩

theorem advances_letGo (r : Row) (d : Desk) (escape : Bool) :
    r.Advances d (if escape then r.escape d else r.pointerUp d) := by
  cases escape with
  | true => exact (advances_applyAll _ d (few_toList r.drag.escape.2)).of_actsFor ⟨rfl, rfl⟩
  | false => exact (advances_applyAll _ d (few_toList r.drag.pointerUp.2)).of_actsFor ⟨rfl, rfl⟩

end Row

namespace Replay.Session

theorem comesTo_gesture {row : Row} {d : Desk}
    (cached : d.cache.get? row.workPackage.id = some row.workPackage) (direction : Timeline.Direction)
    (fromX : Float) (toX : Option Float) (escape : Bool) :
    row.ComesTo d (gesture row d direction fromX toX escape).1
      (gesture row d direction fromX toX escape).2 := by
  have hpress := Row.advances_pressCell cached direction (row.view.cellAt fromX)
  unfold gesture Row.pointerDown
  rcases hd : row.pressCell d direction (row.view.cellAt fromX) with ⟨pressed, held, outcome⟩
  rw [hd] at hpress
  cases outcome with
  | some outcome => exact hpress.comesTo
  | none =>
    have hheld : held.ActsFor row := hpress.goesOn rfl
    have hedits : d.OnlyDrafts pressed := hpress.comesTo.onlyDrafts
    cases toX with
    | none => exact ((held.advances_letGo pressed escape).comesTo.of_actsFor hheld).after hedits
    | some x =>
      obtain ⟨hmoved, hsame⟩ := held.moveToCell_goesOn pressed (held.view.cellAt x)
      exact ((Row.advances_letGo _ _ escape).comesTo.of_actsFor (hsame.trans hheld)).after
        (hedits.trans hmoved)

/-- How a step on the timeline ends: the work package could not be loaded, or a row of it was dragged. -/
inductive Drags (s : Session) (id : PackageId) : Desk → StepResult → Prop
  | notLoaded {loaded : Desk} {error : ApiError} (load : s.desk.load id = (loaded, .error error)) :
      Drags s id loaded (.ofError (.api error))
  | dragged {loaded after : Desk} {x : Snapshot} {row : Row} {outcome : Option Outcome}
      (load : s.desk.load id = (loaded, .ok x)) (shows : row.workPackage.id = id)
      (publishes : row.publishesEvents = true) (comes : row.ComesTo loaded after outcome) :
      Drags s id after (outcomeResult after outcome)

theorem drags_timeline {s : Session} (sound : s.desk.Sound) (id : PackageId)
    (direction : Timeline.Direction) (fromX : Float) (toX : Option Float) (escape : Bool)
    (rendered : List PackageId) :
    s.Drags id (s.run (.timeline id direction fromX toX escape rendered)).1.desk
      (s.run (.timeline id direction fromX toX escape rendered)).2 := by
  change s.Drags id (s.onDesk (s.timeline id direction fromX toX escape rendered)).1.desk
    (s.onDesk (s.timeline id direction fromX toX escape rendered)).2
  unfold timeline
  rcases hl : s.desk.load id with ⟨loaded, error | x⟩
  · exact .notLoaded hl
  · obtain ⟨hid, hcached⟩ := sound.cached_of_load hl
    let row : Row := { (Row.make loaded s.view x rendered).2 with
      publishesEvents := true, notifiesSuccess := s.notifiesSuccess }
    have hshown : (Row.make loaded s.view x rendered).1.cache.get? row.workPackage.id =
        some row.workPackage := hcached
    have hmade : loaded.OnlyDrafts (Row.make loaded s.view x rendered).1 :=
      (Desk.changes_newDraft ..).onlyDrafts (by decide)
    have hcomes := (comesTo_gesture hshown direction fromX toX escape).after hmade
    exact .dragged hl hid rfl hcomes

end Replay.Session

end Draftboard
