import Draftboard.Desk.Field
import Draftboard.Proofs.Desk.Commits
import Draftboard.Proofs.Desk.Registry
/-!
# The status button during saves

The button knows of a pending save by the flag of the registered change-set. So it is blocked as long as
the change-set that is being saved stays in the registry, and not by a save of one that has left it.
-/

namespace Draftboard

namespace StatusButton

theorem isDisabled_iff (b : StatusButton) (d : Desk) :
    b.isDisabled d = true ↔ b.allowed d = false ∨ ∃ h, d.registered? b.workPackage.id = some h ∧
      ((d.changeset h).pristine.readonly = true ∨ (d.changeset h).inFlight = true) := by
  unfold isDisabled
  cases hs : d.schemaFor? b.workPackage with
  | none => simp [allowed, Desk.isEditable, hs]
  | some schema =>
    have hallowed : b.allowed d = (!b.workPackage.readonly && schema.isWritable Attribute.status) := by
      simp [allowed, Desk.isEditable, hs]
    cases hr : d.registered? b.workPackage.id with
    | none => cases hv : b.workPackage.readonly <;> simp [hallowed, hv]
    | some h =>
      cases hw : schema.isWritable Attribute.status <;>
        simp [hallowed, hw, Changeset.isDisabled, Changeset.isWritable]

theorem title_eq_none_iff (b : StatusButton) (d : Desk) :
    b.title d = .none ↔ b.isDisabled d = false := by
  unfold title
  split
  · rename_i hreadonly
    have hdisabled : b.isDisabled d = true :=
      (b.isDisabled_iff d).2 (Or.inl (by simp [allowed, Desk.isEditable, hreadonly]))
    simp [hdisabled]
  · cases b.isDisabled d <;> simp

end StatusButton

namespace Desk

theorem Filed.id_merged {d : Desk} (filed : d.Filed) {id : PackageId} {x : Snapshot}
    (hx : d.merged? id = some x) : x.id = id := by
  cases hr : d.registry[id]? with
  | none =>
    rw [merged?_of_unregistered hr] at hx
    exact filed.keyed id x hx
  | some h =>
    rw [merged?_of_registered hr] at hx
    split at hx
    · exact filed.keyed id x hx
    · rw [← Option.some.inj hx]
      exact filed.id_eq hr

/-! ## Who is registered, and who stays so -/

theorem changeForId_cases (d : Desk) (id : PackageId) :
    ((d.changeForId id).2.isOk = false ∧ d.Bystands (d.changeForId id).1) ∨
      ∃ ready snapshot, (d.changeForId id).2.isOk = true ∧ d.Bystands ready ∧
        (d.load id).2 = .ok snapshot ∧ ready.cache = (d.load id).1.cache ∧
        (d.changeForId id).1 = (ready.changeFor snapshot none).1 := by
  have hload := (changes_load d id).bystands (by decide)
  unfold changeForId
  rcases hl : d.load id with ⟨loaded, error | snapshot⟩ <;> rw [hl] at hload
  · exact Or.inl ⟨rfl, hload⟩
  · have hschema := hload.trans ((changes_ensureSchema loaded snapshot.typeHref).bystands (by decide))
    obtain ⟨server, schemas, hready, -⟩ := exists_ensureSchema loaded snapshot.typeHref
    dsimp only at hschema ⊢
    rcases hs : loaded.ensureSchema snapshot.typeHref with ⟨ready, error | schema⟩ <;>
      rw [hs] at hschema hready
    · exact Or.inl ⟨rfl, hschema⟩
    · have hcache := congrArg Desk.cache hready
      exact Or.inr ⟨ready, snapshot, rfl, hschema, rfl, hcache, rfl⟩

theorem registered?_of_changeFor {d : Desk} (filed : d.Filed) (numbered : d.Numbered) {h : Handle}
    (known : d.drafts[h]?.isSome = true) (fallback : Snapshot) (form : Option Form) {id : PackageId}
    (after : (d.changeFor fallback form).1.registered? id = some h) : d.registered? id = some h := by
  have hgives := gives_changeFor filed.keyed fallback form
  generalize d.changeFor fallback form = given at hgives after
  cases hgives with
  | registered => exact after
  | new =>
    rw [registered?_startEditing] at after
    split at after
    · rw [← Option.some.inj after] at known
      exact absurd (numbered known) (Nat.not_succ_le_self _)
    · exact after

section Registered

variable {d : Desk} {id : PackageId} {h : Handle} (registered : d.registered? id = some h)
include registered

/-- Only a save of its own takes a change-set from the registry, and it lowers the flag then. -/
theorem registered?_advance (filed : d.Filed) (numbered : d.Numbered) (job : SaveJob)
    (raised : ((d.advance job).1.changeset h).inFlight = true) :
    (d.advance job).1.registered? id = some h := by
  have hchanges := changes_advance d job
  obtain ⟨k, hooks, stage⟩ := job
  -- Only the answer to an update touches the registry.
  cases stage with
  | submission pristine payload changes =>
    rcases hu : d.server.update d.clock.now pristine payload with ⟨error | saved, server⟩
    · simp only [advance, submit_of_refused hu]
      exact registered
    · simp only [advance, submit_of_saved hu] at raised ⊢
      have hanswered := (changes_answered d hu).bystands (by decide)
      have hlowers := lowers_settle (hanswered.keepsFlags numbered).numbered k
        { id := saved.id, wasNew := pristine.isNew, workPackage := saved.retainFrom pristine, changes }
      have hother : k ≠ h := by
        rintro rfl
        rw [hlowers.inFlight, if_pos rfl] at raised
        cases raised
      have hsame : (d.answered server).registered? id = some h := registered
      rw [(hanswered.keepsOrder.filed filed).registered?_settle, hsame, if_neg]
      exact fun hmine => hother (Option.some.inj hmine).symm
  | schema pristine stage =>
    have hregistry := hchanges.registry_eq
      (by cases stage <;> simp [SaveStage.parts, SchemaStage.parts])
      (by cases stage <;> simp [SaveStage.parts, SchemaStage.parts])
    exact (congrArg (·[id]?) hregistry).trans registered
  | _ =>
    have hregistry := hchanges.registry_eq (by simp [SaveStage.parts, Part.hooks])
      (by simp [SaveStage.parts, Part.hooks])
    exact (congrArg (·[id]?) hregistry).trans registered

theorem registered?_changeFor_iff (filed : d.Filed) (numbered : d.Numbered) (fallback : Snapshot)
    (form : Option Form) : (d.changeFor fallback form).1.registered? id = some h ↔
      (fallback.id = id → d.IsCurrent fallback (d.changeset h)) := by
  have hgives := gives_changeFor filed.keyed fallback form
  generalize d.changeFor fallback form = given at hgives
  cases hgives with
  | @registered k same current =>
    refine iff_of_true registered fun mine => ?_
    rw [mine] at same
    rw [← Option.some.inj (same.symm.trans registered)]
    exact current
  | new outdated =>
    rw [registered?_startEditing, filed.keyed.id_latest]
    split
    · rename_i mine
      rw [← mine] at registered
      refine iff_of_false (fun heq => ?_) fun current => outdated h registered (current mine)
      rw [← Option.some.inj heq] at registered
      exact Nat.not_succ_le_self _ (numbered (filed.known registered))
    · rename_i other
      exact iff_of_true registered fun mine => absurd mine other

theorem registered?_changeForId_iff (filed : d.Filed) (numbered : d.Numbered) (other : PackageId) :
    (d.changeForId other).1.registered? id = some h ↔
      ((d.changeForId other).2.isOk = true → ∀ snapshot, (d.load other).2 = .ok snapshot →
        snapshot.id = id → (d.load other).1.IsCurrent snapshot (d.changeset h)) := by
  rcases changeForId_cases d other with
    ⟨failed, hbystands⟩ | ⟨ready, snapshot, given, hready, loads, cache, heq⟩
  · refine iff_of_true ((congrArg (·[id]?) hbystands.registry).trans registered) fun given => ?_
    rw [failed] at given
    cases given
  · have hregistered : ready.registered? id = some h :=
      (congrArg (·[id]?) hready.registry).trans registered
    have hsame : ready.IsCurrent snapshot (ready.changeset h) ↔
        (d.load other).1.IsCurrent snapshot (d.changeset h) := by
      rw [hready.changeset, IsCurrent, IsCurrent, cache]
    rw [heq, registered?_changeFor_iff hregistered (hready.keepsOrder.filed filed)
      (hready.keepsFlags numbered).numbered, hsame]
    refine ⟨fun current _ x hx => ?_, fun current => current given snapshot loads⟩
    cases loads.symm.trans hx
    exact current

theorem registered?_reset_iff (filed : d.Filed) (k : Handle) :
    (d.reset k).registered? id = some h ↔ k ≠ h := by
  rw [filed.registered?_reset, registered]
  simp [eq_comm]

theorem registered?_stopEditing_iff (other : PackageId) :
    (d.stopEditing other).registered? id = some h ↔ other ≠ id := by
  have herased : (d.registry.erase other)[id]? = some h ↔ other ≠ id := by
    rw [Std.ExtTreeMap.getElem?_erase]
    split
    · rename_i hsame
      exact iff_of_false nofun fun hne => hne (Std.LawfulEqOrd.compare_eq_iff_eq.1 hsame)
    · rename_i hother
      exact iff_of_true registered fun hsame => hother (Std.LawfulEqOrd.compare_eq_iff_eq.2 hsame)
  unfold stopEditing
  split
  · rename_i hnone
    refine iff_of_true registered ?_
    rintro rfl
    cases hnone.symm.trans registered
  · dsimp only
    split <;> exact herased

end Registered

end Desk

namespace BusyDesk

/-! ## Detaching -/

/-- What takes a change-set out of the registry, apart from the end of its own save: it is given up, or
it has no edits and is behind when it is asked for, and another one takes its place. -/
def Event.Detaches (d : Desk) (h : Handle) : Event → Prop
  | .move (.act (.reset k) _) => k = h
  | .move (.act (.stopEditing id) _) => id = (d.changeset h).id
  | .move (.act (.changeFor snapshot _) _) =>
    snapshot.id = (d.changeset h).id ∧ ¬d.IsCurrent snapshot (d.changeset h)
  | .move (.act (.changeForId id) _) => (d.changeForId id).2.isOk = true ∧
    ∃ snapshot, (d.load id).2 = .ok snapshot ∧ snapshot.id = (d.changeset h).id ∧
      ¬(d.load id).1.IsCurrent snapshot (d.changeset h)
  | _ => False

/-- Nothing takes the change-set out of the registry along these events, its own save apart. -/
def KeepsAttached (h : Handle) : BusyDesk → List Event → Prop
  | _, [] => True
  | b, event :: rest => ¬event.Detaches b.desk h ∧ KeepsAttached h (b.happen event) rest

/-- The events that may change who is registered, and what they do. -/
inductive Files (b : BusyDesk) : Event → Desk → Prop
  | asks (snapshot : Snapshot) (form : Option Form) :
      Files b (.move (.act (.changeFor snapshot form) trivial)) (b.desk.changeFor snapshot form).1
  | asksById (id : PackageId) :
      Files b (.move (.act (.changeForId id) trivial)) (b.desk.changeForId id).1
  | resets (k : Handle) : Files b (.move (.act (.reset k) trivial)) (b.desk.reset k)
  | stops (id : PackageId) : Files b (.move (.act (.stopEditing id) trivial)) (b.desk.stopEditing id)
  | advances {n : Nat} {job : SaveJob} (mine : b.saves[n]? = some job) :
      Files b (.move (.advance n)) (b.desk.advance job).1
  | none {event : Event} {after : Desk} (same : after.registry = b.desk.registry)
      (attached : ∀ h, ¬event.Detaches b.desk h) : Files b event after

theorem files_happen (b : BusyDesk) (event : Event) : b.Files event (b.happen event).desk := by
  cases event with
  | move move =>
    cases move with
    | act action leaves =>
      cases action with
      | changeFor snapshot form => exact .asks snapshot form
      | changeForId id => exact .asksById id
      | reset k => exact .resets k
      | stopEditing id => exact .stops id
      | save k hooks => exact leaves.elim
      | _ =>
        exact .none ((b.desk.changes_act (by simp)).registry_eq (by simp [Desk.Action.parts])
          (by simp [Desk.Action.parts])) fun _ => id
    | start k =>
      refine .none ?_ fun _ => id
      unfold happen BusyDesk.move
      dsimp only
      split
      · exact (b.desk.changes_startSave k).registry_eq (by decide) (by decide)
      · rfl
    | advance n =>
      cases hjob : b.saves[n]? with
      | none =>
        refine .none ?_ fun _ => id
        simp only [happen, BusyDesk.move, hjob]
      | some job =>
        have hfiles : b.Files (.move (.advance n)) (b.desk.advance job).1 := .advances hjob
        simpa only [happen, BusyDesk.move, hjob] using hfiles
  | _ => exact .none rfl fun _ => id

section Step

variable {hooks : List Hook} {b : BusyDesk} (hb : b.Orderly hooks) {id : PackageId} {h : Handle}
include hb

theorem registered?_happen_iff (registered : b.desk.registered? id = some h) {event : Event}
    (raised : ((b.happen event).desk.changeset h).inFlight = true) :
    (b.happen event).desk.registered? id = some h ↔ ¬event.Detaches b.desk h := by
  have hid := hb.filed.id_eq registered
  have hnumbered : b.desk.Numbered := hb.disciplined.numbered
  have hfiles := b.files_happen event
  generalize (b.happen event).desk = after at hfiles raised
  cases hfiles with
  | asks snapshot form =>
    refine (Desk.registered?_changeFor_iff registered hb.filed hnumbered snapshot form).trans ?_
    simp only [Event.Detaches, hid, not_and, not_not]
  | asksById other =>
    refine (Desk.registered?_changeForId_iff registered hb.filed hnumbered other).trans ?_
    simp only [Event.Detaches, hid, not_and, not_exists, not_not]
  | resets k => exact Desk.registered?_reset_iff registered hb.filed k
  | stops other =>
    refine (Desk.registered?_stopEditing_iff registered other).trans ?_
    simp only [Event.Detaches, hid, ne_eq]
  | @advances n job =>
    exact iff_of_true (Desk.registered?_advance registered hb.filed hnumbered job raised) not_false
  | none same attached =>
    exact iff_of_true ((congrArg (·[id]?) same).trans registered) (attached h)

theorem registered?_of_happen (known : b.desk.drafts[h]?.isSome = true) {event : Event}
    (registered : (b.happen event).desk.registered? id = some h) : b.desk.registered? id = some h := by
  have hnumbered : b.desk.Numbered := hb.disciplined.numbered
  have hfiles := b.files_happen event
  generalize (b.happen event).desk = after at hfiles registered
  cases hfiles with
  | asks snapshot form =>
    exact Desk.registered?_of_changeFor hb.filed hnumbered known snapshot form registered
  | asksById other =>
    rcases Desk.changeForId_ends b.desk other with hends | ⟨ready, snapshot, hready, heq⟩
    · exact hends.keepsDrafts.registry registered
    · rw [heq] at registered
      rw [← hready.drafts] at known
      have hfiled := hready.keepsOrder.filed hb.filed
      have hbefore := Desk.registered?_of_changeFor hfiled (hready.keepsFlags hnumbered).numbered
        known snapshot none registered
      exact hready.keepsDrafts.registry hbefore
  | resets k =>
    exact ((b.desk.changes_reset k).keepsDrafts (by decide) (by decide)).registry registered
  | stops other =>
    exact ((b.desk.changes_stopEditing other).keepsDrafts (by decide) (by decide)).registry registered
  | @advances n job =>
    have hadvance := (b.desk.changes_advance job).mono job.stage.parts_subset_saving
    exact (hadvance.keepsDrafts (by decide) (by decide)).registry registered
  | none same => exact (congrArg (·[id]?) same).symm.trans registered

end Step

/-! ## As long as a save pends -/

theorem isPending_of_happen {b : BusyDesk} (hb : b.Disciplined) {n : Nat} {job next : SaveJob}
    (mine : b.saves[n]? = some job) {event : Event} (after : (b.happen event).saves[n]? = some next)
    (pending : next.isPending = true) : job.isPending = true := by
  by_cases hevent : event = .move (.advance n)
  · subst hevent
    obtain ⟨hlt, -⟩ := List.getElem?_eq_some_iff.1 mine
    have hnext : (b.desk.advance job).2 = next := by
      unfold happen BusyDesk.move at after
      simp only [mine] at after
      exact Option.some.inj ((List.getElem?_set_self hlt).symm.trans after)
    rw [← hnext] at pending
    cases Desk.stepEnds_advance hb.numbered job with
    | goesOn same => exact same.symm.trans pending
    | resolves was => exact was
  · cases (saves_happen mine hevent).symm.trans after
    exact pending

theorem isPending_of_happenAll {hooks : List Hook} {b : BusyDesk} (hb : b.Orderly hooks) {n : Nat}
    {job next : SaveJob} (mine : b.saves[n]? = some job) {later : List Event}
    (after : (b.happenAll later).saves[n]? = some next) (pending : next.isPending = true) :
    job.isPending = true := by
  induction later generalizing b job with
  | nil =>
    cases mine.symm.trans after
    exact pending
  | cons event rest ih =>
    obtain ⟨between, hbetween, -⟩ := exists_saves_happen mine event
    exact isPending_of_happen hb.disciplined mine hbetween (ih (hb.happen event) hbetween after)

section Pending

variable {hooks : List Hook} {b : BusyDesk} (hb : b.Orderly hooks) {id : PackageId} {n : Nat}
  {job next : SaveJob} (mine : b.saves[n]? = some job) {later : List Event}
  (after : (b.happenAll later).saves[n]? = some next) (pending : next.isPending = true)
include hb mine after pending

theorem known_of_pending : b.desk.drafts[job.handle]?.isSome = true :=
  Desk.known_of_inFlight (hb.disciplined.inFlight mine (isPending_of_happenAll hb mine after pending))

theorem registered?_of_happenAll
    (registered : (b.happenAll later).desk.registered? id = some job.handle) :
    b.desk.registered? id = some job.handle := by
  induction later generalizing b job with
  | nil => exact registered
  | cons event rest ih =>
    obtain ⟨between, hbetween, hsame⟩ := exists_saves_happen mine event
    rw [← hsame] at registered
    have hlater := ih (hb.happen event) hbetween after registered
    rw [hsame] at hlater
    exact registered?_of_happen hb (known_of_pending hb mine after pending) hlater

theorem registered?_happenAll_iff (registered : b.desk.registered? id = some job.handle) :
    (b.happenAll later).desk.registered? id = some job.handle ↔ KeepsAttached job.handle b later := by
  induction later generalizing b job with
  | nil => exact iff_of_true registered trivial
  | cons event rest ih =>
    obtain ⟨between, hbetween, hsame⟩ := exists_saves_happen mine event
    have hnext := hb.happen event
    -- The save is to pend later on, so it does now, and its flag is up.
    have hraised := hnext.disciplined.inFlight hbetween
      (isPending_of_happenAll hnext hbetween after pending)
    rw [hsame] at hraised
    have hstep := registered?_happen_iff hb registered hraised
    have hrest := ih hnext hbetween after
    have hback : (b.happenAll (event :: rest)).desk.registered? id = some between.handle →
        (b.happen event).desk.registered? id = some between.handle :=
      registered?_of_happenAll hnext hbetween after pending
    rw [hsame] at hrest hback
    refine ⟨fun hlast => ?_, fun ⟨stays, hstays⟩ => (hrest (hstep.2 stays)).2 hstays⟩
    exact ⟨hstep.1 (hback hlast), (hrest (hback hlast)).1 hlast⟩

end Pending

/-! ## The button -/

theorem Disciplined.inFlight_iff {b : BusyDesk} (hb : b.Disciplined) (h : Handle) :
    (b.desk.changeset h).inFlight = true ↔ ∃ job ∈ b.saves, job.handle = h ∧ job.isPending = true := by
  refine ⟨fun raised => ?_, ?_⟩
  · obtain ⟨n, job, hn, hjob⟩ := hb.exists_pending raised
    exact ⟨job, List.mem_of_getElem? hn, hjob⟩
  · rintro ⟨job, hmem, rfl, pending⟩
    obtain ⟨n, hn⟩ := List.mem_iff_getElem?.1 hmem
    exact hb.inFlight hn pending

/-- A status button is disabled where the status may not be changed, and where a save of the
change-set pends that is registered for its work package; then it has a title. Refreshed, it is still
the button of that work package. As long as a save of a registered change-set pends, the change-set is
registered just if nothing has detached it, and then it blocks the button. -/
theorem pending_save_blocks_status {d : Desk} (opens : Opens d) (events : List Event) :
    let b := course d events
    (∀ button : StatusButton,
      (button.isDisabled b.desk = true ↔ button.allowed b.desk = false ∨
        ∃ h, b.desk.registered? button.workPackage.id = some h ∧
          ((b.desk.changeset h).pristine.readonly = true ∨
            ∃ job ∈ b.saves, job.handle = h ∧ job.isPending = true)) ∧
      (button.title b.desk = .none ↔ button.isDisabled b.desk = false) ∧
      (button.refresh b.desk).workPackage.id = button.workPackage.id) ∧
    ∀ (n : Nat) (job : SaveJob) (id : PackageId), b.saves[n]? = some job →
      b.desk.registered? id = some job.handle →
      ∀ (later : List Event) (next : SaveJob), (b.happenAll later).saves[n]? = some next →
        next.isPending = true →
        ((b.happenAll later).desk.registered? id = some job.handle ↔
          KeepsAttached job.handle b later) ∧
        (KeepsAttached job.handle b later →
          ∀ button : StatusButton, button.workPackage.id = id →
            button.isDisabled (b.happenAll later).desk = true ∧
            button.title (b.happenAll later).desk ≠ .none) := by
  intro b
  have hb : b.Orderly d.hooks := opens.orderly_course events
  refine ⟨fun button => ⟨?_, button.title_eq_none_iff b.desk, ?_⟩, ?_⟩
  · rw [button.isDisabled_iff b.desk]
    simp only [hb.disciplined.inFlight_iff]
  · unfold StatusButton.refresh
    cases hmerged : b.desk.merged? button.workPackage.id with
    | none => rfl
    | some x => exact hb.filed.id_merged hmerged
  · intro n job id mine registered later next after pending
    have hregistered := registered?_happenAll_iff hb mine after pending registered
    refine ⟨hregistered, fun stays button hid => ?_⟩
    -- The later save is the one that was there, so the flag of its change-set is still up.
    obtain ⟨next', hnext', hsame⟩ := exists_saves_happenAll mine later
    cases after.symm.trans hnext'
    have hraised := (hb.happenAll later).disciplined.inFlight after pending
    rw [hsame] at hraised
    subst hid
    have hdisabled := (button.isDisabled_iff (b.happenAll later).desk).2
      (Or.inr ⟨_, hregistered.2 stays, Or.inr hraised⟩)
    refine ⟨hdisabled, fun htitle => ?_⟩
    rw [button.title_eq_none_iff, hdisabled] at htitle
    cases htitle

def statusDesk : Desk :=
  let fields := ((∅ : TextMap FieldSchema).insert "subject" { writable := true }).insert
    Attribute.status { writable := true, kind := .link }
  let schema : Schema := { typeHref := "task", fields }
  { quietDesk with schemas := (∅ : TextMap Schema).insert "task" schema }

theorem opens_statusDesk : Opens statusDesk := opens_quietDesk.withSchemas _

/-- The button is free while a subject is written. While it is being saved, it is written once more, a
newer snapshot comes and the change-set is asked for again; all the time the button is blocked. -/
theorem pending_save_blocks_status_edited :
    let snapshot : Snapshot := { id := { text := "7" }, lockVersion := 3, typeHref := "task" }
    let writes : List Event :=
      [.move (.act (.changeFor snapshot none) trivial),
        .move (.act (.setValue 1 "subject" (.text "Mine")) trivial)]
    let later : List Event :=
      [.move (.act (.setValue 1 "subject" (.text "Later")) trivial),
        .move (.act (.put { snapshot with lockVersion := 4 }) trivial),
        .move (.act (.changeFor snapshot none) trivial)]
    let button : StatusButton := { workPackage := snapshot }
    let saving := course statusDesk (writes ++ [.move (.start 1)])
    Opens statusDesk ∧ button.isDisabled (course statusDesk writes).desk = false ∧
      saving.pendingOn 1 = 1 ∧ KeepsAttached 1 saving later ∧
      button.isDisabled (saving.happenAll later).desk = true ∧
      button.title (saving.happenAll later).desk ≠ .none := by
  intro snapshot writes later button saving
  have hfree : button.isDisabled (course statusDesk writes).desk = false := by decide +kernel
  have hone : saving.pendingOn 1 = 1 := by decide +kernel
  have hstart : saving.desk.registered? snapshot.id = some 1 ∧
      saving.saves[0]?.map (fun job => (job.handle, job.isPending)) = some (1, true) := by
    decide +kernel
  have hedited : ((saving.happenAll (later.take 2)).desk.changeset 1).isEmpty = false := by
    decide +kernel
  obtain ⟨hregistered, hsave⟩ := hstart
  obtain ⟨job, hjob, hpends⟩ := Option.map_eq_some_iff.1 hsave
  obtain ⟨hhandle, hpending⟩ := Prod.mk.inj hpends
  have hattached : KeepsAttached 1 saving later :=
    ⟨not_false, not_false, fun gone => gone.2 (Or.inl hedited), trivial⟩
  have hstill : (saving.happenAll later).saves[0]? = some job := saves_happenAll hjob (by simp [later])
  obtain ⟨-, hblocks⟩ := pending_save_blocks_status opens_statusDesk (writes ++ [.move (.start 1)])
  obtain ⟨-, hbutton⟩ := hblocks 0 job snapshot.id hjob (by rw [hhandle]; exact hregistered) later job
    hstill hpending
  rw [hhandle] at hbutton
  exact ⟨opens_statusDesk, hfree, hone, hattached, hbutton hattached button rfl⟩

/-- A subject is being saved when editing is stopped. The save pends, and the button is free. -/
theorem stopped_save_frees_status :
    let snapshot : Snapshot := { id := { text := "7" }, lockVersion := 3, typeHref := "task" }
    let b := course statusDesk
      [.move (.act (.changeFor snapshot none) trivial),
        .move (.act (.setValue 1 "subject" (.text "Mine")) trivial), .move (.start 1),
        .move (.act (.stopEditing snapshot.id) trivial)]
    let button : StatusButton := { workPackage := snapshot }
    b.pendingOn 1 = 1 ∧ (b.desk.changeset 1).id = snapshot.id ∧
      (b.desk.changeset 1).inFlight = true ∧ button.isDisabled b.desk = false ∧
      button.title b.desk = .none := by
  intro snapshot b button
  refine ⟨?_, ?_, ?_, ?_, ?_⟩ <;> decide +kernel

end BusyDesk

end Draftboard
