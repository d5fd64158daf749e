import Mathlib.Logic.Relation
import Draftboard.Proofs.Desk.RowsInStep
/-!
# Sessions

All that one client does with a desk, one completed operation at a time, and with failures queued at
any time. Editing starts from new work packages and from snapshots that the client was given.
-/

namespace Draftboard

def Outcome.commit? : Outcome → Option Commit
  | .saved commit => some commit
  | _ => none

theorem Outcome.eq_saved_of_commit? {outcome : Outcome} {commit : Commit}
    (h : outcome.commit? = some commit) : outcome = .saved commit := by
  cases outcome with
  | saved c => exact congrArg Outcome.saved (Option.some.inj h)
  | noChange => cases h
  | cancelled => cases h
  | failed => cases h

structure Session where
  desk : Desk
  /-- Snapshots that were loaded, found in the cache or committed at some time. -/
  seen : List Snapshot := []
  /-- Timeline rows, in every state they were in. -/
  rows : List Row := []

namespace Session

/-- A new work package, or a snapshot that the client was given. -/
def Knows (s : Session) (x : Snapshot) : Prop := x.isNew = true ∨ x ∈ s.seen

def commits (s : Session) (commit : Option Commit) : List Snapshot :=
  (commit.map (·.workPackage)).toList ++ s.seen

/-! ## Operations -/

inductive Step : Session → Session → Prop
  | load (s : Session) (id : PackageId) :
      Step s { s with
        desk := (s.desk.load id).1, seen := (s.desk.load id).2.toOption.toList ++ s.seen }
  | look (s : Session) {id : PackageId} {x : Snapshot} (cached : s.desk.cache.get? id = some x) :
      Step s { s with seen := x :: s.seen }
  | changeForId (s : Session) (id : PackageId) :
      Step s { s with desk := (s.desk.changeForId id).1 }
  | changeFor (s : Session) {x : Snapshot} (form : Option Form) (known : s.Knows x) :
      Step s { s with desk := (s.desk.changeFor x form).1 }
  /-- A change-set that is registered nowhere. -/
  | detached (s : Session) {x : Snapshot} (form : Option Form) (known : s.Knows x) :
      Step s { s with
        desk := (s.desk.newDraft { changeset := { pristine := x, form }, reported := false }).1 }
  /-- Any edits of any change-set, registered or not. -/
  | edit (s : Session) (h : Handle) {f : Changeset → Changeset}
      (keeps : ∀ c, (f c).pristine = c.pristine) :
      Step s { s with desk := (s.desk.edit h fun c => (f c, ())).1 }
  | save (s : Session) {h : Handle} (known : s.desk.drafts[h]?.isSome = true) :
      Step s { s with
        desk := (s.desk.save h).1, seen := s.commits (s.desk.save h).2.toOption }
  | reset (s : Session) (h : Handle) : Step s { s with desk := s.desk.reset h }
  | stopEditing (s : Session) (id : PackageId) : Step s { s with desk := s.desk.stopEditing id }
  | invalidate (s : Session) (id : PackageId) : Step s { s with desk := s.desk.dropPackage id }
  | failNext (s : Session) (op : Operation) (error : ApiError) :
      Step s { s with desk := { s.desk with server := s.desk.server.failNext op error } }
  /-- A row of any settings and in any state of a drag, with a change-set of its own. -/
  | row (s : Session) (r : Row) (known : s.Knows r.workPackage) :
      Step s { s with
        desk := (Row.make s.desk r.view r.workPackage r.rendered).1
        rows := { r with handle := (Row.make s.desk r.view r.workPackage r.rendered).2.handle } :: s.rows }
  | drag (s : Session) {r : Row} (event : Row.Event) (known : r ∈ s.rows) :
      Step s {
        desk := (r.on s.desk event).1
        seen := s.commits ((r.on s.desk event).2.2.bind Outcome.commit?)
        rows := (r.on s.desk event).2.1 :: s.rows }
  | drop (s : Session) (g : Grouping) {x : Snapshot} (identifier : String) (known : s.Knows x) :
      Step s { s with
        desk := (g.drop s.desk x identifier).1, seen := s.commits (g.drop s.desk x identifier).2 }

theorem Step.changes {s t : Session} (step : Step s t) : s.desk.Changes Part.working t.desk := by
  cases step with
  | load id => exact (Desk.changes_load ..).mono (by decide)
  | look cached => exact .refl _ s.desk
  | changeForId id => exact (Desk.changes_changeForId ..).mono (by decide)
  | changeFor form known => exact (Desk.changes_changeFor ..).mono (by decide)
  | detached form known => exact (Desk.changes_newDraft ..).mono (by decide)
  | edit h keeps => exact (Desk.changes_rewrite s.desk (keeps _)).edit.mono (by decide)
  | save known => exact (Desk.changes_save ..).mono (by decide)
  | reset h => exact (Desk.changes_reset ..).mono (by decide)
  | stopEditing id => exact (Desk.changes_stopEditing ..).mono (by decide)
  | invalidate id => exact (Desk.Change.drop id).changes.mono (by decide)
  | failNext op error => exact (Desk.Change.store (.failNext op error)).changes.mono (by decide)
  | row r known => exact (Desk.changes_newDraft ..).mono (by decide)
  | drag event known => exact Row.changes_on ..
  | drop g identifier known => exact Grouping.changes_drop ..

theorem Step.asks {s t : Session} (step : Step s t) : s.desk.Asks t.desk := step.changes.asks (by decide)

/-! ## Staying in step -/

structure InStep (s : Session) : Prop where
  desk : s.desk.InStep
  seen : ∀ x ∈ s.seen, x.Fits s.desk.server
  rows : ∀ r ∈ s.rows, r.Fits s.desk

theorem InStep.fits {s : Session} (h : s.InStep) {x : Snapshot} (known : s.Knows x) :
    x.Fits s.desk.server := by
  rcases known with hnew | hseen
  · exact Or.inl hnew
  · exact h.seen x hseen

/-- An operation that proceeds keeps what was seen before; what it adds has to fit. -/
theorem InStep.next {s t : Session} (h : s.InStep) (proceeds : s.desk.Proceeds t.desk)
    (seen : ∀ x ∈ t.seen, x ∈ s.seen ∨ x.Fits t.desk.server)
    (rows : ∀ r ∈ t.rows, r ∈ s.rows ∨ r.Fits t.desk) : t.InStep where
  desk := proceeds.inStep
  seen x hx := by
    rcases seen x hx with hold | hfits
    · exact (h.seen x hold).mono proceeds.advances
    · exact hfits
  rows r hr := by
    rcases rows r hr with hold | hfits
    · exact (h.rows r hold).mono proceeds
    · exact hfits

/-- A session before its first operation: whatever is cached is the stored snapshot, the parent is
refreshed after each save, and no hook writes to the cache on its own. -/
structure Opens (s : Session) : Prop where
  reached : s.desk.server.Reachable
  cached : ∀ id x, s.desk.cache.get? id = some x →
    ∃ stored, s.desk.server.stored? id = some stored ∧ x.same stored = true
  refreshes : Hook.refreshParent ∈ s.desk.hooks
  plain : ∀ hook ∈ s.desk.hooks, hook.PutsNothing
  drafts : s.desk.drafts = ∅
  registry : s.desk.registry = ∅
  seen : s.seen = []
  rows : s.rows = []

theorem Opens.inStep {s : Session} (h : s.Opens) : s.InStep where
  desk :=
    { reached := h.reached
      coherent := fun id x _ hx => h.cached id x hx
      refreshes := h.refreshes
      plain := h.plain
      fits := fun hdraft => by simp [h.drafts] at hdraft
      onDesk := fun hr => by simp [h.registry] at hr }
  seen := by simp [h.seen]
  rows := by simp [h.rows]

end Session

end Draftboard
