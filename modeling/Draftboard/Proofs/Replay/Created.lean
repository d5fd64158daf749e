import Draftboard.Proofs.Desk.Registry
import Draftboard.Proofs.Replay.Stored
/-!
# What a create step starts

All unsaved work packages have one id, so a create step that finds a change-set registered for it may go
on with that one, of whatever type it is. The type of what is saved in the end is that of the change-set.
-/

namespace Draftboard

/-! ## Change-sets stay what they are based on -/

namespace Desk

def KeepsBases (d d' : Desk) : Prop :=
  ∀ h : Handle, d.drafts[h]?.isSome = true →
    d'.drafts[h]?.isSome = true ∧ (d'.changeset h).pristine = (d.changeset h).pristine

theorem KeepsBases.trans {first middle last : Desk} (h : first.KeepsBases middle)
    (h' : middle.KeepsBases last) : first.KeepsBases last := by
  intro k known
  obtain ⟨hknown, hbase⟩ := h k known
  obtain ⟨hknown', hbase'⟩ := h' k hknown
  exact ⟨hknown', hbase'.trans hbase⟩

theorem KeepsDrafts.keepsBases {d d' : Desk} (keeps : d.KeepsDrafts d') : d.KeepsBases d' :=
  fun k known => ⟨(keeps.isSome k).trans known, keeps.pristine k⟩

theorem keepsBases_newDraft {d : Desk} (numbered : d.Numbered) (draft : Draft) :
    d.KeepsBases (d.newDraft draft).1 := by
  intro k known
  rw [getElem?_newDraft_of_known numbered draft known, changeset_newDraft_of_known numbered draft known]
  exact ⟨known, rfl⟩

theorem Change.keepsBases {d d' : Desk} {part : Part} (change : d.Change part d') (numbered : d.Numbered) :
    d.KeepsBases d' := by
  by_cases undrafted : part = .drafts
  · subst undrafted
    cases change with
    | draft => exact keepsBases_newDraft numbered _
  · by_cases unfiled : part = .filed
    · subst unfiled
      cases change with
      | file => exact fun k known => ⟨known, rfl⟩
    · exact (change.keepsDrafts undrafted unfiled).keepsBases

theorem Changes.keepsBases {d d' : Desk} {parts : List Part} (changes : d.Changes parts d')
    (numbered : d.Numbered) : d.KeepsBases d' := by
  have hlift := changes.lift (R := fun d d' => d.Numbered → d'.Numbered ∧ d.KeepsBases d')
    (fun _ numbered => ⟨numbered, fun k known => ⟨known, rfl⟩⟩)
    (fun first later numbered => by
      obtain ⟨hnumbered, hfirst⟩ := first numbered
      exact ⟨(later hnumbered).1, hfirst.trans (later hnumbered).2⟩)
    fun _ change numbered => ⟨change.numbered numbered, change.keepsBases numbered⟩
  exact (hlift numbered).2

/-! ## The first save -/

theorem typeHref_of_saved_new {d after : Desk} {h : Handle} {commit : Commit}
    (new : (d.changeset h).pristine.isNew = true) (saved : d.save h = (after, .ok commit)) :
    commit.wasNew = true ∧ ∃ record, after.server.stored? commit.id = some record ∧
      record.typeHref = (d.changeset h).pristine.typeHref := by
  obtain ⟨schema, payload, record, server, now, -, hrecord, rfl, hstored⟩ := exists_record saved
  refine ⟨new, record, hstored, ?_⟩
  rw [Server.saved_of_isNew new hrecord]
  rfl

end Desk

namespace Replay

/-! ## Create steps -/

/-- How a create step comes to the change-set that is registered for the unsaved id after it. -/
structure Session.Starts (before after : Desk) (typeHref : String) (h : Handle) : Prop where
  registered : after.registered? .unsaved = some h
  goesOn : ∀ k, before.registered? .unsaved = some k →
    before.IsCurrent (.unsaved typeHref) (before.changeset k) →
      h = k ∧ after.changeset h = before.changeset h
  anew : (∀ k, before.registered? .unsaved = some k →
    ¬before.IsCurrent (.unsaved typeHref) (before.changeset k)) →
      after.changeset h = { pristine := before.latest (.unsaved typeHref) }

namespace Session

theorem starts_changeFor {d : Desk} (filed : d.Filed) (typeHref : String) :
    Starts d (d.changeFor (.unsaved typeHref) none).1 typeHref
      (d.changeFor (.unsaved typeHref) none).2 := by
  have hgives := Desk.gives_changeFor filed.keyed (.unsaved typeHref) none
  generalize d.changeFor (.unsaved typeHref) none = given at hgives
  cases hgives with
  | registered hr hcurrent =>
    refine ⟨hr, fun k hk _ => ⟨Option.some.inj (hr.symm.trans hk), rfl⟩, fun outdated => ?_⟩
    exact absurd hcurrent (outdated _ hr)
  | new outdated =>
    refine ⟨?_, fun k hk hcurrent => absurd hcurrent (outdated k hk), fun _ => ?_⟩
    · exact (Desk.registered?_startEditing ..).trans (if_pos (filed.keyed.id_latest _))
    · exact Desk.changeset_startEditing ..

theorem starts_create {s : Session} (sound : s.desk.Sound) {typeHref : String}
    (worked : (s.run (.create typeHref)).2.isFailure = false) :
    (s.run (.create typeHref)).2 = .modified [] ∧
      ∃ h, Starts s.desk (s.run (.create typeHref)).1.desk typeHref h := by
  obtain ⟨server, schemas, hready, -⟩ := Desk.exists_ensureSchema s.desk typeHref
  have hbystands := (s.desk.changes_ensureSchema typeHref).bystands (by decide)
  unfold run create at worked ⊢
  rcases he : s.desk.ensureSchema typeHref with ⟨ready, error | schema⟩ <;>
    rw [he] at hready hbystands <;> simp only [he] at worked ⊢
  · cases worked
  · have hstarts := starts_changeFor (hbystands.keepsOrder.filed sound.filed) typeHref
    dsimp only at hready
    subst hready
    exact ⟨rfl, _, hstarts.registered, hstarts.goesOn, hstarts.anew⟩

theorem stored_of_save_unsaved {s : Session} (sound : s.desk.Sound) {h : Handle}
    (registered : s.desk.registered? .unsaved = some h) {id : PackageId} {wasNew : Bool} {version : Nat}
    {changes : Attributes}
    (saved : (s.run (.save .unsaved)).2 = .committed id wasNew version changes) :
    wasNew = true ∧ ∃ record, (s.run (.save .unsaved)).1.desk.server.stored? id = some record ∧
      record.typeHref = (s.desk.changeset h).pristine.typeHref := by
  have hnew : (s.desk.changeset h).pristine.isNew = true :=
    (PackageId.isNew_iff _).2 (sound.filed.id_eq registered)
  simp only [run, save, changeset, registered] at saved ⊢
  rcases hs : s.desk.save h with ⟨after, error | commit⟩ <;> simp only [hs] at saved ⊢
  · cases saved
  · obtain ⟨hwas, record, hrecord, htype⟩ := Desk.typeHref_of_saved_new hnew hs
    cases saved
    refine ⟨hwas, record, ?_, htype⟩
    dsimp only [onDesk]
    split <;> exact hrecord

end Session

/-- A create step goes on with the change-set that is registered for the unsaved id, whatever its type and
its edits are, if that one has edits or is as new as any snapshot at hand. Without such a one it starts an
empty one. In both cases it reports that nothing is modified. As long as the change-set is registered, a
save of the unsaved id stores a work package of the type that the change-set is based on. -/
theorem create_goes_on {name : String} {script : Script} {settings : EditorSettings} {clock : Clock}
    {report : Report} (ran : run name script settings clock = .ok report) {done rest : List Step}
    {typeHref : String} (steps : script.steps = done ++ .create typeHref :: rest) {result : StepResult}
    (entry : report.steps[done.length]?.map (·.result) = some result) (worked : result.isFailure = false) :
    ∃ session h, Session.start script settings clock = .ok session ∧ result = .modified [] ∧
      let before := (session.runAll 0 done).1.desk
      let after := (session.runAll 0 (done ++ [.create typeHref])).1.desk
      Session.Starts before after typeHref h ∧
      ∀ (later : List Step) (id : PackageId) (wasNew : Bool) (version : Nat) (changes : Attributes),
        let ready := (session.runAll 0 (done ++ .create typeHref :: later)).1
        ready.desk.registered? .unsaved = some h →
        (ready.run (.save .unsaved)).2 = .committed id wasNew version changes →
        wasNew = true ∧ ∃ record, (ready.run (.save .unsaved)).1.desk.server.stored? id = some record ∧
          record.typeHref = (after.changeset h).pristine.typeHref := by
  obtain ⟨session, hstart, hsteps, -⟩ := exists_session ran
  have hsound := Session.sound_start hstart
  have hdone := Session.sound_runAll hsound 0 done
  have hresult : ((session.runAll 0 done).1.run (.create typeHref)).2 = result := by
    rw [hsteps, steps, Session.getElem?_runAll] at entry
    exact Option.some.inj entry
  rw [← hresult] at worked
  obtain ⟨hmodified, h, hstarts⟩ := Session.starts_create hdone worked
  rw [← Session.runAll_concat session 0 done] at hstarts
  refine ⟨session, h, hstart, hresult ▸ hmodified, hstarts, fun later id wasNew version changes => ?_⟩
  intro ready registered saved
  have hafter := Session.sound_runAll hsound 0 (done ++ [.create typeHref])
  have hready : ready.desk.Sound := Session.sound_runAll hsound 0 (done ++ .create typeHref :: later)
  -- Along the later steps the change-set stays on the snapshot that it was created on.
  have hlater := Session.changes_runAll hafter (0 + (done ++ [Step.create typeHref]).length) later
  have hbases := hlater.keepsBases hafter.numbered
  rw [← Session.runAll_append, List.append_assoc, List.singleton_append] at hbases
  obtain ⟨-, hbase⟩ := hbases h (hafter.filed.known hstarts.registered)
  rw [← hbase]
  exact Session.stored_of_save_unsaved hready registered saved

def twoTypes : Fixtures :=
  let schema (typeHref : String) : Schema :=
    { typeHref, fields := (∅ : TextMap FieldSchema).insert Attribute.subject { writable := true } }
  { schemas := [schema "task", schema "bug"] }

/-- A draft of a task is there when a bug is to be started. The step goes on with the task, and that is
what is saved, with the subject of the draft. -/
theorem create_goes_on_task :
    let draft : List Step := [.create "task", .set .unsaved Attribute.subject (.text "Draft")]
    let script : Script := { fixtures := twoTypes, steps := draft ++ [.create "bug"] }
    let id : PackageId := { text := "1" }
    ∃ report session, run "bug" script {} default = .ok report ∧
      Session.start script {} default = .ok session ∧
      report.steps[2]?.map (·.result) = some (.modified []) ∧
      ((session.runAll 0 script.steps).1.desk.changeset 1).changedNames = [Attribute.subject] ∧
      ∃ record, ((session.runAll 0 script.steps).1.run (.save .unsaved)).1.desk.server.stored? id =
        some record ∧ record.typeHref = "task" := by
  intro draft script id
  have starts : (Session.start script {} default).toOption.isSome = true := by decide +kernel
  obtain ⟨report, ran⟩ := exists_report "bug" starts
  have hresult : (run "bug" script {} default).toOption.bind (·.steps[2]?.map (·.result)) =
      some (.modified []) := by decide +kernel
  rw [ran] at hresult
  obtain ⟨session, h, hstart, -, hstarts, hsaves⟩ := create_goes_on ran
    (show script.steps = draft ++ .create "bug" :: [] from rfl) hresult rfl
  have hafter : (Session.start script {} default).toOption.map (fun session =>
      let after := (session.runAll 0 script.steps).1
      (after.desk.registered? .unsaved, (after.desk.changeset 1).changedNames,
        (after.desk.changeset 1).pristine.typeHref, (after.run (.save .unsaved)).2)) =
      some (some 1, [Attribute.subject], "task",
        .committed id true 0 ((∅ : Attributes).insert Attribute.subject (.text "Draft"))) := by
    decide +kernel
  rw [hstart] at hafter
  obtain ⟨hregistered, hafter⟩ := Prod.mk.inj (Option.some.inj hafter)
  obtain ⟨hnames, hafter⟩ := Prod.mk.inj hafter
  obtain ⟨htype, hsaved⟩ := Prod.mk.inj hafter
  obtain rfl : h = 1 := Option.some.inj (hstarts.registered.symm.trans hregistered)
  obtain ⟨-, record, hrecord, hrecordType⟩ := hsaves [] _ _ _ _ hregistered hsaved
  exact ⟨report, session, ran, hstart, hresult, hnames, record, hrecord, hrecordType.trans htype⟩

/-- A task and then a bug are to be started, and both steps report that nothing is modified. It is the
task that stays registered, and no bug is saved. -/
theorem create_keeps_other_type :
    let starts : List Step := [.create "task", .create "bug"]
    let script : Script := { fixtures := twoTypes, steps := starts ++ [.save .unsaved] }
    (run "bug" script {} default).toOption.map (·.steps.map (·.result)) =
      some [.modified [], .modified [], .committed { text := "1" } true 0 ∅] ∧
    (Session.start script {} default).toOption.map (fun session =>
      let after := (session.runAll 0 starts).1.desk
      (after.registered? .unsaved).map fun h => (after.changeset h).pristine.typeHref) =
        some (some "task") ∧
    (run "bug" script {} default).toOption.map (·.workPackages.map (·.typeHref)) = some ["task"] := by
  intro starts script
  refine ⟨?_, ?_, ?_⟩ <;> decide +kernel

end Replay

end Draftboard
