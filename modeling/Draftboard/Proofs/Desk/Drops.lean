import Draftboard.Desk.Grouping
import Draftboard.Proofs.Desk.Blocking
import Draftboard.Proofs.Desk.Commuting
import Draftboard.Proofs.Desk.Fidelity
import Draftboard.Proofs.Desk.Midway
import Draftboard.Proofs.Desk.Registry
import Draftboard.Proofs.Desk.Tallies
import Draftboard.Proofs.Desk.Writable
/-!
# Drops into groups

A drop is one edit and one save. If the save fails the user is told once, and the edit stays in the
change-set beside those that were there.
-/

namespace Draftboard

/-! ## Edits on top of edits -/

theorem Changeset.value_setValue_same (c : Changeset) (name : String) (value : AttrValue) :
    ((c.setValue name value).value name).same value = true := by
  have hwritten : lastWritten? name [(name, value)] = some value := by simp [lastWritten?]
  exact Changeset.value_setValues_of_written hwritten

namespace Desk

theorem registered?_changeFor {d : Desk} (keyed : d.Keyed) (x : Snapshot) (form : Option Form) :
    (d.changeFor x form).1.registered? x.id = some (d.changeFor x form).2 := by
  have hgives := gives_changeFor keyed x form
  generalize d.changeFor x form = given at hgives
  cases hgives with
  | registered registered => exact registered
  | new => exact (registered?_startEditing d (d.latest x) form x.id).trans (if_pos (keyed.id_latest x))

def editsOf (d : Desk) (id : PackageId) : Attributes :=
  (d.registered? id).elim ∅ fun h => (d.changeset h).changes

theorem edits_changeFor {d : Desk} (keyed : d.Keyed) (x : Snapshot) (form : Option Form) :
    ((d.changeFor x form).1.changeset (d.changeFor x form).2).changes = d.editsOf x.id := by
  have hgives := gives_changeFor keyed x form
  generalize d.changeFor x form = given at hgives
  unfold editsOf
  cases hgives with
  | registered registered =>
    rw [registered]
    rfl
  | new outdated =>
    refine (congrArg Changeset.changes (changeset_startEditing d _ form)).trans ?_
    cases hr : d.registered? x.id with
    | none => rfl
    | some k =>
      -- What is replaced has no modifications.
      have hempty : (d.changeset k).isEmpty = true := by
        have hnot := outdated k hr
        rw [IsCurrent, not_or] at hnot
        simpa using hnot.1
      exact (Std.ExtTreeMap.isEmpty_iff.1 hempty).symm

/-! ## What is saved -/

theorem isFaithful_of_stored {d : Desk} {h : Handle}
    (stored : d.server.stored? (d.changeset h).id = some (d.changeset h).pristine) : d.IsFaithful h := by
  intro current hcurrent _
  rw [Option.some.inj (hcurrent.symm.trans stored)]
  exact Snapshot.same_iff.2 rfl

theorem value_of_saved {d after : Desk} {h : Handle} {commit : Commit}
    (saved : d.save h = (after, .ok commit)) (name : String) :
    commit.workPackage.value name = d.valueAfterSave (d.changeset h) name ∧
      ∀ stored, d.storedFor? (d.changeset h) = some stored →
        stored.lockVersion = (d.changeset h).pristine.lockVersion := by
  cases ends_of_save saved with
  | @done ready schema payload record server free asked built sent =>
    obtain ⟨hpackages, -⟩ := packages_of_asked asked
    obtain ⟨-, hrecord, -⟩ := Server.update_eq_ok sent
    rw [valueAfterSave, storedFor?]
    cases hnew : (d.changeset h).pristine.isNew with
    | true =>
      rw [value_commit_new hnew built hrecord, if_pos rfl, Option.bind_none, Option.or_none]
      refine ⟨rfl, fun stored hmine => ?_⟩
      cases hmine
    | false =>
      obtain ⟨current, hcurrent, hversion, -⟩ := Server.saved_of_stored hnew hrecord
      have hstored : d.server.stored? (d.changeset h).id = some current := by
        rw [Server.stored?, ← hpackages]
        exact hcurrent
      rw [value_commit_stored hnew built hcurrent hrecord, if_neg (by simp), hstored, Option.bind_some]
      refine ⟨rfl, fun stored hmine => ?_⟩
      rw [← Option.some.inj hmine, hversion, Changeset.lockVersion_of_buildPayload built]

/-- A value that was written is committed, also if nothing is left to submit because it is the pristine
one. -/
theorem value_of_saved_same {d after : Desk} {h : Handle} {commit : Commit} {c : Changeset}
    {name : String} {value : AttrValue} (written : d.changeset h = c.setValue name value)
    (formless : c.form = none) (faithful : d.IsFaithful h) (saved : d.save h = (after, .ok commit)) :
    (commit.workPackage.value name).same value = true := by
  obtain ⟨hvalue, hversion⟩ := value_of_saved saved name
  have hsubmitted : (d.changeset h).submitted? name = (d.changeset h).changes[name]? := by
    rw [Changeset.submitted?, written, show (c.setValue name value).form = none from formless,
      Option.bind_none, Option.or_none]
  rw [hvalue, valueAfterSave, hsubmitted, written, Changeset.getElem?_changes_setValue, if_pos rfl]
  by_cases hpristine : (c.pristine.value name).same value = true
  · rw [if_pos hpristine, Option.none_or, ← written]
    have hshown : ((d.changeset h).pristine.value name).same value = true := by
      rw [written]
      exact hpristine
    cases hstored : d.storedFor? (d.changeset h) with
    | none => exact hshown
    | some stored =>
      rw [Option.bind_some]
      cases hattribute : stored.attributes[name]? with
      | none => exact hshown
      | some kept =>
        -- The snapshot goes by the stored version, so the stored value is the pristine one.
        have hfound : d.server.stored? (d.changeset h).id = some stored := by
          unfold storedFor? at hstored
          split at hstored
          · cases hstored
          · exact hstored
        have hsame := Changeset.value_same_of_same
          (faithful stored hfound (hversion stored hstored)) name
        have hkept : stored.untimed.value name = kept := by
          rw [Snapshot.value, Snapshot.untimed, hattribute, Option.getD_some]
        rw [hkept] at hsame
        rw [Option.getD_some, AttrValue.same_iff, ← AttrValue.same_iff.1 hsame]
        exact AttrValue.same_iff.1 hshown
  · rw [if_neg hpristine]
    exact AttrValue.same_refl value

/-! ## Drops -/

/-- The desk with a value written into the change-set of a work package, and that change-set. -/
def written (d : Desk) (x : Snapshot) (name : String) (value : AttrValue) : Desk × Handle :=
  ((d.changeFor x none).1.setValue (d.changeFor x none).2 name value, (d.changeFor x none).2)

section Written

variable {d : Desk} (x : Snapshot) (name : String) (value : AttrValue)

theorem changes_written : d.Changes [.drafts, .filed, .edits, .pushes] (d.written x name value).1 :=
  Grouping.changes_write d x name value

theorem notices_save_written :
    ((d.written x name value).1.save (d.written x name value).2).1.notices = d.notices :=
  (notices_save _ _).trans ((changes_written x name value).notices_eq (by decide))

theorem changeset_written (filed : d.Filed) :
    (d.written x name value).1.changeset (d.written x name value).2 =
      ((d.changeFor x none).1.changeset (d.changeFor x none).2).setValue name value :=
  (setValue_self (known_changeFor filed x none) name value).2

theorem registered?_written (filed : d.Filed) :
    (d.written x name value).1.registered? x.id = some (d.written x name value).2 := by
  have hset : (d.changeFor x none).1.Changes [.edits, .pushes] (d.written x name value).1 :=
    changes_setValue ..
  have hedit := hset.registry_eq (by decide) (by decide)
  have hregistered := registered?_changeFor filed.keyed x none
  rw [registered?] at hregistered ⊢
  exact (congrArg (·[x.id]?) hedit).trans hregistered

theorem isFaithful_written (filed : d.Filed)
    (faithful : (d.changeFor x none).1.IsFaithful (d.changeFor x none).2) :
    (d.written x name value).1.IsFaithful (d.written x name value).2 := by
  unfold IsFaithful at faithful ⊢
  rw [changeset_written x name value filed, Changeset.id, Changeset.pristine_setValue,
    (changes_written x name value).server_eq (by decide)]
  rwa [(d.changes_changeFor x none).server_eq (by decide)] at faithful

theorem kept_of_failed {after : Desk} {error : EditError} (filed : d.Filed)
    (failed : (d.written x name value).1.save (d.written x name value).2 = (after, .error error))
    (free : error.isInFlight = false) :
    ∃ h, after.registered? x.id = some h ∧ (after.changeset h).inFlight = false ∧
      ((after.changeset h).value name).same value = true ∧
      ∀ other, other ≠ name → (after.changeset h).changes[other]? = (d.editsOf x.id)[other]? := by
  have huntouched := untouched_save failed
  have hwritten := changeset_written x name value filed
  refine ⟨(d.written x name value).2, ?_, ?_, ?_, fun other hother => ?_⟩
  · rw [registered?, huntouched.registry]
    exact registered?_written x name value filed
  · rw [huntouched.changeset, ← isInFlight_of_failed failed]
    exact free
  · rw [huntouched.changeset, hwritten]
    exact Changeset.value_setValue_same ..
  · rw [huntouched.changeset, hwritten, Changeset.getElem?_changes_setValue, if_neg hother.symm,
      edits_changeFor filed.keyed]

end Written

end Desk

namespace Grouping

open Desk

theorem drop_of_ungrouped (g : Grouping) (ungrouped : g.name = none) (d : Desk) (x : Snapshot)
    (identifier : String) : g.drop d x identifier = (d, none) := by
  unfold drop
  rw [ungrouped]

theorem drop_eq (g : Grouping) (d : Desk) (x : Snapshot) (identifier : String) {name : String}
    (grouped : g.name = some name) :
    g.drop d x identifier =
      match (d.written x name (g.valueFor identifier)).1.save
        (d.written x name (g.valueFor identifier)).2 with
      | (after, .ok commit) => (after, some commit)
      | (after, .error error) => (after.notify (.ofError error x.id), none) := by
  unfold drop
  rw [grouped]
  rfl

/-- What a drop of a value leaves behind. Nothing is said of a change-set whose save is still under
way. -/
def DropEnds (before : Desk) (x : Snapshot) (name : String) (value : AttrValue) (after : Desk) :
    Option Commit → Prop
  | some commit => after.notices = before.notices ∧ (commit.workPackage.value name).same value = true
  | none => ∃ error,
    ((before.written x name value).1.save (before.written x name value).2).2 = .error error ∧
    after.notices = before.notices ++ [.ofError error x.id] ∧
    (error.isInFlight = false → ∃ h, after.registered? x.id = some h ∧
      (after.changeset h).inFlight = false ∧ ((after.changeset h).value name).same value = true ∧
      ∀ other, other ≠ name → (after.changeset h).changes[other]? = (before.editsOf x.id)[other]?)

section Drop

variable (g : Grouping) {d : Desk} (filed : d.Filed) (x : Snapshot) (identifier : String) {name : String}
  (grouped : g.name = some name)
include grouped

theorem updates_drop_le :
    (g.drop d x identifier).1.server.calls.get .update ≤ d.server.calls.get .update + 1 := by
  have hserver := (changes_written (d := d) x name (g.valueFor identifier)).server_eq (by decide)
  have hends := save_ends (d.written x name (g.valueFor identifier)).1
    (d.written x name (g.valueFor identifier)).2
  rw [g.drop_eq d x identifier grouped]
  generalize d.written x name (g.valueFor identifier) = edited at hserver hends
  rcases hsave : edited.1.save edited.2 with ⟨after, error | commit⟩ <;> rw [hsave] at hends
  · obtain ⟨n, hn, hsubmits⟩ := hends.exists_submits
    have hupdates := hsubmits.updates
    rw [hserver] at hupdates
    exact hupdates ▸ Nat.add_le_add_left hn _
  · have hupdates := hends.submits.updates
    rw [hserver] at hupdates
    exact Nat.le_of_eq hupdates

include filed

theorem drop_ends (formless : ((d.changeFor x none).1.changeset (d.changeFor x none).2).form = none)
    (faithful : (d.changeFor x none).1.IsFaithful (d.changeFor x none).2) :
    DropEnds d x name (g.valueFor identifier) (g.drop d x identifier).1 (g.drop d x identifier).2 := by
  have hnotices := notices_save_written (d := d) x name (g.valueFor identifier)
  rw [g.drop_eq d x identifier grouped]
  rcases hsave : (d.written x name (g.valueFor identifier)).1.save
    (d.written x name (g.valueFor identifier)).2 with ⟨after, error | commit⟩ <;> rw [hsave] at hnotices
  · refine ⟨error, by rw [hsave], ?_, fun free => ?_⟩
    · exact congrArg (· ++ [Notice.ofError error x.id]) hnotices
    · have hkept := kept_of_failed x name (g.valueFor identifier) filed hsave free
      exact hkept
  · have hwritten := changeset_written x name (g.valueFor identifier) filed
    have hfaithful := isFaithful_written x name (g.valueFor identifier) filed faithful
    exact ⟨hnotices, value_of_saved_same hwritten formless hfaithful hsave⟩

end Drop

end Grouping

namespace BusyDesk

open Desk

/-- A drop sends at most one update. It commits the value of the group, or the user is told once of the
error that the save ended with. Then the change-set keeps the value next to the edits that it had, and
is free, unless an earlier save of it is still under way. Nothing happens where nothing is grouped. -/
theorem drop_notifies_once {d : Desk} (opens : Opens d) (events : List Event) (g : Grouping)
    (x : Snapshot) (identifier : String)
    (formless : (((course d events).desk.changeFor x none).1.changeset
      ((course d events).desk.changeFor x none).2).form = none)
    (faithful : ((course d events).desk.changeFor x none).1.IsFaithful
      ((course d events).desk.changeFor x none).2) :
    let before := (course d events).desk
    let dropped := g.drop before x identifier
    (g.name = none → dropped = (before, none)) ∧
      ∀ name, g.name = some name →
        dropped.1.server.calls.get .update ≤ before.server.calls.get .update + 1 ∧
        Grouping.DropEnds before x name (g.valueFor identifier) dropped.1 dropped.2 := by
  intro before dropped
  have horder : (course d events).Orderly d.hooks := opens.orderly_course events
  refine ⟨fun ungrouped => ?_, fun name grouped => ⟨?_, ?_⟩⟩
  · exact g.drop_of_ungrouped ungrouped before x identifier
  · exact g.updates_drop_le x identifier grouped
  · exact g.drop_ends horder.filed x identifier grouped formless faithful

def tableDesk : Desk :=
  let schema : Schema :=
    { assignable with fields := assignable.fields.insert "subject" { writable := true } }
  { quietDesk with schemas := (∅ : TextMap Schema).insert "task" schema }

theorem opens_tableDesk : Opens tableDesk := opens_quietDesk.withSchemas _

theorem drop_notifies_once_refused :
    let stored : Snapshot := { id := { text := "7" }, lockVersion := 3, typeHref := "task" }
    let events : List Event :=
      [.move (.act (.changeFor stored none) trivial),
        .move (.act (.setValue 1 "subject" (.text "Mine")) trivial),
        .move (.act (.elsewhere (tableDesk.server.failNext .update (.transport "timeout"))) trivial)]
    let before := (course tableDesk events).desk
    let dropped := byAssignee.drop before stored "mine"
    Opens tableDesk ∧ dropped.2 = none ∧
      Grouping.DropEnds before stored "assignee" (byAssignee.valueFor "mine") dropped.1 dropped.2 ∧
      dropped.1.notices = [.ofError (.api (.transport "timeout")) stored.id] ∧
      (dropped.1.changeset 1).changes =
        ((∅ : Attributes).insert "subject" (.text "Mine")).insert "assignee"
          (.link { href := "/api/v3/users/1" }) := by
  intro stored events before dropped
  have hformless : ((before.changeFor stored none).1.changeset (before.changeFor stored none).2).form =
      none := by decide +kernel
  have hfaithful : (before.changeFor stored none).1.IsFaithful (before.changeFor stored none).2 := by
    refine isFaithful_of_stored ?_
    decide +kernel
  obtain ⟨-, hdrop⟩ :=
    drop_notifies_once opens_tableDesk events byAssignee stored "mine" hformless hfaithful
  obtain ⟨-, hends⟩ := hdrop "assignee" rfl
  refine ⟨opens_tableDesk, ?_, hends, ?_, ?_⟩ <;> decide +kernel

end BusyDesk

end Draftboard
