import Draftboard.Desk.Row
import Draftboard.Proofs.Desk.InStep
/-!
# Rows and groups in step with the server

A drag on a timeline row and a drop into a group edit, save and refresh. They keep the desk in step.
-/

namespace Draftboard

theorem Server.updatedSince_eq_ok {s s' : Server} {ids : List PackageId} {since : Instant}
    {updated : List Snapshot} (hu : s.updatedSince ids since = (.ok updated, s')) :
    updated = (ids.filterMap s.stored?).filter fun x => x.updatedAt.any (since ≤ ·) := by
  unfold updatedSince request at hu
  have hb := (sameStore_begin s .since).packages
  rcases hs : s.begin .since with ⟨_ | queued, counted⟩ <;> rw [hs] at hu hb
  · cases hu
    dsimp only at hb
    rw [hb]
    rfl
  · cases hu

theorem Server.stored_of_updatedSince {s s' : Server} (h : s.WellFormed) {ids : List PackageId}
    {since : Instant} {updated : List Snapshot} (hu : s.updatedSince ids since = (.ok updated, s')) :
    ∀ x ∈ updated, s'.packages[x.id]? = some x := by
  have hpackages := (sameStore_updatedSince s ids since).packages
  rw [hu] at hpackages
  intro x hx
  rw [updatedSince_eq_ok hu] at hx
  obtain ⟨id, -, hid⟩ := List.mem_filterMap.1 (List.mem_filter.1 hx).1
  dsimp only at hpackages
  rw [hpackages, h.id_eq hid]
  exact hid

namespace Row

/-! ## Rows on a desk -/

/-- A row of a snapshot that the server had, with a change-set that is on the desk. -/
structure Fits (r : Row) (d : Desk) : Prop where
  workPackage : r.workPackage.Fits d.server
  handle : d.drafts[r.handle]?.isSome = true

theorem Fits.mono {r : Row} {d d' : Desk} (h : r.Fits d) (proceeds : d.Proceeds d') : r.Fits d' where
  workPackage := h.workPackage.mono proceeds.advances
  handle := proceeds.stays h.handle

theorem Fits.refreshed {r : Row} {d : Desk} (h : r.Fits d) (inStep : d.InStep) :
    (r.refreshed d).Fits d where
  workPackage := by
    unfold Row.refreshed
    dsimp only
    cases hc : d.cache.get? r.workPackage.id with
    | none => exact h.workPackage
    | some cached => exact inStep.fits_cached hc
  handle := h.handle

/-- The last part of every drag: the edits are dropped, and the row takes the cached snapshot. -/
def land (r : Row) (d : Desk) (outcome : Outcome) : RowStep :=
  (d.reset r.handle, { r.refreshed (d.reset r.handle) with drag := r.drag.finish }, some outcome)

theorem deactivate_eq (r : Row) (d : Desk) (cancelled : Bool) :
    r.deactivate d cancelled =
      if cancelled then r.land d .cancelled
      else if (d.changeset r.handle).isEmpty then r.land d .noChange
      else r.land (r.save d).1 (r.save d).2 := by
  unfold deactivate
  cases cancelled with
  | true => rfl
  | false => cases (d.changeset r.handle).isEmpty <;> rfl

inductive Event where
  | press (direction : Timeline.Direction) (cell : Timeline.Cell)
  | move (cell : Timeline.Cell)
  | release
  | escape
  | leave

def on (r : Row) (d : Desk) : Event → RowStep
  | .press direction cell => r.pressCell d direction cell
  | .move cell => r.moveToCell d cell
  | .release => r.pointerUp d
  | .escape => r.escape d
  | .leave => r.pointerLeave d

theorem changes_on (r : Row) (d : Desk) (event : Event) : d.Changes Part.working (r.on d event).1 := by
  cases event with
  | press direction cell => exact changes_pressCell r d direction cell
  | _ => exact changes_applyAll ..

end Row

/-! ## Groups -/

namespace Grouping

end Grouping

end Draftboard
