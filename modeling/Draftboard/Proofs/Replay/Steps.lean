import Draftboard.Replay.Run
import Draftboard.Proofs.Desk.Works
/-!
# What a step of a script does

A step does chores on the desk and saves one change-set at most, or it removes an attachment. What is
said of all steps elsewhere goes by these three cases.
-/

namespace Draftboard

theorem Changeset.pristine_applyFilters (c : Changeset) (schema : Schema) (filters : List Filter) :
    (c.applyFilters schema filters).1.pristine = c.pristine := by
  unfold applyFilters
  refine List.foldlRecOn (motive := fun state : Changeset × Nat => state.1.pristine = c.pristine)
    filters _ rfl fun state kept f _ => ?_
  refine Eq.trans ?_ kept
  dsimp only
  unfold applyFilter
  split
  · split <;> rfl
  · rfl

theorem Desk.exists_removal {d after : Desk} {l l' : AttachmentList} {a : Attachment}
    (gone : d.removeAttachment l a = (after, l', true)) :
    ∃ server, d.server.deleteAttachment a = (.ok (), server) ∧ after = { d with server } := by
  unfold removeAttachment request at gone
  rcases hd : d.server.deleteAttachment a with ⟨error | done, server⟩ <;> simp only [hd] at gone
  · cases gone
  · cases gone
    exact ⟨server, rfl, rfl⟩

namespace Replay

/-! ## Results -/

def StepResult.isQuiet : StepResult → Bool
  | committed .. | removed => false
  | failed .. | modified _ | cleared | cancelled | noChange => true

theorem isQuiet_lastError (d : Desk) : (Session.lastError d).isQuiet = true := by
  unfold Session.lastError
  dsimp only
  cases hfound : List.findSome? _ d.notices.reverse with
  | none => rfl
  | some result =>
    obtain ⟨notice, -, hnotice⟩ := List.exists_of_findSome?_eq_some hfound
    cases notice with
    | saved id => cases hnotice
    | failed id code message =>
      cases hnotice
      rfl

theorem isQuiet_outcomeResult (d : Desk) {outcome : Option Outcome}
    (unsaved : outcome.bind Outcome.commit? = none) :
    (Session.outcomeResult d outcome).isQuiet = true := by
  rcases outcome with _ | commit | _ | _ | _
  · rfl
  · cases unsaved
  · rfl
  · rfl
  · exact isQuiet_lastError d

/-! ## Steps -/

/-- How a step ends. -/
inductive Step.Ends (step : Step) (d : Desk) : Desk → StepResult → Prop
  | quiet {d' : Desk} {result : StepResult} (chores : d.Chores d') (quiet : result.isQuiet = true) :
      Ends step d d' result
  | saved {d' : Desk} {commit : Commit} (works : d.Works d' (some commit)) :
      Ends step d d' (.ofCommit commit)
  | removed {d' : Desk} {id : PackageId} {l l' : AttachmentList} {a : Attachment}
      (asked : step = .removeAttachment id a.id) (gone : d.removeAttachment l a = (d', l', true)) :
      Ends step d d' .removed

theorem Step.Ends.of_works {step : Step} {d d' : Desk} {commit : Option Commit} {result : StepResult}
    (works : d.Works d' commit) (quiet : commit = none → result.isQuiet = true)
    (saved : ∀ c, commit = some c → result = .ofCommit c) : step.Ends d d' result := by
  cases commit with
  | none => exact .quiet works.chores (quiet rfl)
  | some c =>
    rw [saved c rfl]
    exact .saved works

namespace Session

theorem chores_changeset {s : Session} (sound : s.desk.Sound) (id : PackageId) :
    s.desk.Chores (s.changeset id).1 := by
  unfold changeset
  split
  · exact .refl
  · exact Desk.chores_changeForId sound id

theorem works_gesture {row : Row} {d : Desk}
    (cached : d.cache.get? row.workPackage.id = some row.workPackage) (direction : Timeline.Direction)
    (fromX : Float) (toX : Option Float) (escape : Bool) :
    d.Works (gesture row d direction fromX toX escape).1
      ((gesture row d direction fromX toX escape).2.bind Outcome.commit?) := by
  have hpress := Row.works_pressCell cached direction (row.view.cellAt fromX)
  unfold gesture Row.pointerDown
  rcases hd : row.pressCell d direction (row.view.cellAt fromX) with ⟨pressed, held, outcome⟩
  rw [hd] at hpress
  cases outcome with
  | some outcome => exact hpress
  | none =>
    -- Nothing has been saved at the press, so all of it was chores.
    have hchores := hpress.chores
    cases toX with
    | none => exact (held.works_letGo pressed escape).after hchores
    | some x =>
      exact (Row.works_letGo _ _ escape).after
        (hchores.trans (held.chores_moveToCell pressed (held.view.cellAt x)))

theorem ends_timeline {s : Session} (sound : s.desk.Sound) (step : Step) (id : PackageId)
    (direction : Timeline.Direction) (fromX : Float) (toX : Option Float) (escape : Bool)
    (rendered : List PackageId) :
    let after := s.onDesk (s.timeline id direction fromX toX escape rendered)
    step.Ends s.desk after.1.desk after.2 := by
  have hload : s.desk.Chores (s.desk.load id).1 := .single (.load s.desk id)
  unfold timeline
  rcases hl : s.desk.load id with ⟨loaded, error | x⟩ <;> rw [hl] at hload
  · exact .quiet hload rfl
  · obtain ⟨-, hcached⟩ := sound.cached_of_load hl
    have hrow := hload.tail (.detached loaded x)
    let row : Row := { (Row.make loaded s.view x rendered).2 with
      publishesEvents := true, notifiesSuccess := s.notifiesSuccess }
    have hshown : (Row.make loaded s.view x rendered).1.cache.get? row.workPackage.id =
        some row.workPackage := hcached
    have hworks := works_gesture hshown direction fromX toX escape
    refine .of_works (hworks.after hrow) (isQuiet_outcomeResult _) fun commit hcommit => ?_
    obtain ⟨outcome, houtcome, hsaved⟩ := Option.bind_eq_some_iff.1 hcommit
    rw [Outcome.eq_saved_of_commit? hsaved] at houtcome
    exact congrArg (outcomeResult _) houtcome

theorem ends_groupDrop {s : Session} (sound : s.desk.Sound) (step : Step) (id : PackageId)
    (grouping : Grouping) (group : String) :
    let after := s.onDesk (s.groupDrop id grouping group)
    step.Ends s.desk after.1.desk after.2 := by
  have hload : s.desk.Chores (s.desk.load id).1 := .single (.load s.desk id)
  unfold groupDrop
  rcases hl : s.desk.load id with ⟨loaded, error | x⟩ <;> rw [hl] at hload
  · exact .quiet hload rfl
  · have hdrop := grouping.works_drop (sound.cached_of_load hl).2 group
    dsimp only
    split
    · rcases hd : grouping.drop loaded x group with ⟨after, _ | commit⟩ <;> rw [hd] at hdrop
      · exact .quiet (hload.trans hdrop.chores) (isQuiet_lastError after)
      · exact .saved (hdrop.after hload)
    · exact .quiet hload rfl

theorem ends_removeAttachment (s : Session) (id : PackageId) (attachment : String) :
    (Step.removeAttachment id attachment).Ends s.desk (s.removeAttachment id attachment).1.desk
      (s.removeAttachment id attachment).2 := by
  unfold removeAttachment
  split
  · exact .quiet .refl rfl
  · rename_i l _
    split
    · exact .quiet .refl rfl
    · rename_i target htarget
      have hmine : target.id = attachment := by simpa using List.find?_some htarget
      rcases hr : s.desk.removeAttachment l target with ⟨after, l', _ | _⟩
      · exact .quiet (.single (.failedRemoval hr)) (isQuiet_lastError after)
      · exact .removed (by rw [hmine]) hr

theorem ends_create (s : Session) (step : Step) (typeHref : String) :
    step.Ends s.desk (s.onDesk (s.create typeHref)).1.desk (s.onDesk (s.create typeHref)).2 := by
  have hschema : s.desk.Chores (s.desk.ensureSchema typeHref).1 := .single (.ensureSchema _ typeHref)
  have hnew : (Snapshot.unsaved typeHref).isNew = true := PackageId.isNew_unsaved
  unfold create
  rcases he : s.desk.ensureSchema typeHref with ⟨ready, error | schema⟩ <;> rw [he] at hschema
  · exact .quiet hschema rfl
  · exact .quiet (hschema.tail (.changeFor (Or.inl hnew) none)) rfl

section Edits

variable {s : Session} (sound : s.desk.Sound) (step : Step) (id : PackageId)
include sound

theorem ends_set (name : String) (value : AttrValue) :
    step.Ends s.desk (s.onDesk (s.set id name value)).1.desk (s.onDesk (s.set id name value)).2 := by
  have hstart := chores_changeset sound id
  unfold set
  rcases hc : s.changeset id with ⟨d, error | h⟩ <;> rw [hc] at hstart
  · exact .quiet hstart rfl
  · exact .quiet (hstart.tail (.edit (Changeset.pristine_setValue ..))) rfl

theorem ends_save : step.Ends s.desk (s.onDesk (s.save id)).1.desk (s.onDesk (s.save id)).2 := by
  have hstart := chores_changeset sound id
  unfold save
  rcases hc : s.changeset id with ⟨d, error | h⟩ <;> rw [hc] at hstart
  · exact .quiet hstart rfl
  · dsimp only
    rcases hs : d.save h with ⟨after, error | commit⟩
    · exact .quiet (hstart.tail (.failedSave hs)) rfl
    · have hnotify : after.WindsUp
          (if s.notifiesSuccess then after.notify (.saved commit.id) else after) := by
        split
        · exact .single (.chore (.notify after _))
        · exact .refl
      exact .saved (.saved hstart hs hnotify)

theorem ends_filterDefaults (filters : List Filter) :
    step.Ends s.desk (s.onDesk (s.filterDefaults id filters)).1.desk
      (s.onDesk (s.filterDefaults id filters)).2 := by
  have hstart := chores_changeset sound id
  unfold filterDefaults
  rcases hc : s.changeset id with ⟨d, error | h⟩ <;> rw [hc] at hstart
  · exact .quiet hstart rfl
  · have hschema := hstart.tail (.ensureSchema d (d.changeset h).pristine.typeHref)
    dsimp only
    rcases he : d.ensureSchema (d.changeset h).pristine.typeHref with ⟨ready, error | schema⟩ <;>
      rw [he] at hschema
    · exact .quiet hschema rfl
    · exact .quiet (hschema.tail (.edit (Changeset.pristine_applyFilters ..))) rfl

end Edits

theorem ends_run {s : Session} (sound : s.desk.Sound) (step : Step) :
    step.Ends s.desk (s.run step).1.desk (s.run step).2 := by
  cases step with
  | create typeHref => exact ends_create s _ typeHref
  | set id name value => exact ends_set sound _ id name value
  | save id => exact ends_save sound _ id
  | reset id =>
    simp only [run, reset]
    split
    · exact .quiet .refl rfl
    · exact .quiet (.single (.reset ..)) rfl
  | stop id => exact .quiet (.single (.stopEditing s.desk id)) rfl
  | groupDrop id grouping group => exact ends_groupDrop sound _ id grouping group
  | timeline id direction fromX toX escape rendered =>
    exact ends_timeline sound _ id direction fromX toX escape rendered
  | filterDefaults id filters => exact ends_filterDefaults sound _ id filters
  | removeAttachment id attachment => exact ends_removeAttachment s id attachment

end Session

/-! ## Order -/

theorem Step.Ends.changes {step : Step} {d d' : Desk} {result : StepResult}
    (ends : step.Ends d d' result) : d.Changes Part.working d' := by
  cases ends with
  | quiet chores => exact chores.changes.mono (by decide)
  | saved works => exact works.changes
  | @removed id l l' a asked gone =>
    obtain ⟨server, hdelete, rfl⟩ := Desk.exists_removal gone
    have hstore := (Desk.Change.store (d := d) (.deleteAttachment a)).changes
    rw [show d.server.perform (.deleteAttachment a) = server from congrArg Prod.snd hdelete] at hstore
    exact hstore.mono (by decide)

theorem Step.Ends.sound {step : Step} {d d' : Desk} {result : StepResult}
    (ends : step.Ends d d' result) (sound : d.Sound) : d'.Sound := ends.changes.sound (by decide) sound

namespace Session

/-! ## Runs -/

theorem fst_runAll (s : Session) (index : Nat) (steps : List Step) :
    (s.runAll index steps).1 = steps.foldl (fun s step => (s.run step).1) s := by
  induction steps generalizing s index with
  | nil => rfl
  | cons step rest ih => exact ih (s.run step).1 (index + 1)

theorem runAll_append (s : Session) (index : Nat) (done rest : List Step) :
    (s.runAll index (done ++ rest)).1 =
      ((s.runAll index done).1.runAll (index + done.length) rest).1 := by
  rw [fst_runAll, fst_runAll, fst_runAll, List.foldl_append]

theorem runAll_concat (s : Session) (index : Nat) (done : List Step) (step : Step) :
    (s.runAll index (done ++ [step])).1 = ((s.runAll index done).1.run step).1 :=
  runAll_append s index done [step]

theorem receiver_run (s : Session) (step : Step) : (s.run step).1.receiver = s.receiver := by
  cases step with
  | removeAttachment id attachment =>
    simp only [run, removeAttachment]
    split
    · rfl
    · split <;> rfl
  | _ => rfl

theorem receiver_runAll (s : Session) (index : Nat) (steps : List Step) :
    (s.runAll index steps).1.receiver = s.receiver := by
  induction steps generalizing s index with
  | nil => rfl
  | cons step rest ih => exact (ih (s.run step).1 (index + 1)).trans (receiver_run s step)

theorem changes_runAll {s : Session} (sound : s.desk.Sound) (index : Nat) (steps : List Step) :
    s.desk.Changes Part.working (s.runAll index steps).1.desk := by
  induction steps generalizing s index with
  | nil => exact .refl _ s.desk
  | cons step rest ih =>
    have hstep := ends_run sound step
    exact hstep.changes.trans (ih (hstep.sound sound) (index + 1))

theorem sound_runAll {s : Session} (sound : s.desk.Sound) (index : Nat) (steps : List Step) :
    (s.runAll index steps).1.desk.Sound := (changes_runAll sound index steps).sound (by decide) sound

theorem getElem?_runAll (s : Session) (index : Nat) (done : List Step) (step : Step)
    (rest : List Step) :
    (s.runAll index (done ++ step :: rest)).2[done.length]? = some
      { index := index + done.length, op := step.name, target := step.target,
        result := ((s.runAll index done).1.run step).2 } := by
  induction done generalizing s index with
  | nil => rfl
  | cons first done ih =>
    refine (ih (s.run first).1 (index + 1)).trans ?_
    rw [List.length_cons, Nat.add_right_comm, Nat.add_assoc]
    rfl

/-! ## The start -/

theorem reachable_server (f : Fixtures) : (server f).Reachable := by
  have hschemas := List.foldlRecOn (motive := Server.Reachable) f.schemas Server.insertSchema .empty
    fun _ h schema _ => h.insertSchema schema
  have hpackages := List.foldlRecOn f.workPackages Server.insert hschemas fun _ h x _ => h.insert x
  exact List.foldlRecOn _ Server.insertAttachment hpackages fun _ h a _ => h.insertAttachment a

theorem desk_start {script : Script} {settings : EditorSettings} {clock : Clock} {s : Session}
    (opened : start script settings clock = .ok s) :
    s.receiver = 0 ∧ s.desk =
      { server := server script.fixtures, clock, hooks := hooks settings.hooks
        bus := { positions := [0] } } := by
  unfold start at opened
  dsimp only [bind, Except.bind] at opened
  split at opened
  · cases opened
  · cases opened
    exact ⟨rfl, rfl⟩

theorem sound_start {script : Script} {settings : EditorSettings} {clock : Clock} {s : Session}
    (opened : start script settings clock = .ok s) : s.desk.Sound := by
  rw [(desk_start opened).2]
  exact
    { reached := reachable_server script.fixtures
      numbered := fun known => (by simp at known)
      filed :=
        { keyed := fun id x hx => (by simp [PackageCache.get?] at hx)
          known := fun hr => (by simp at hr)
          id_eq := fun hr => (by simp at hr) } }

end Session

/-! ## Reports -/

theorem run_of_start (name : String) {script : Script} {settings : EditorSettings} {clock : Clock}
    {session : Session} (starts : Session.start script settings clock = .ok session) :
    let (last, steps) := session.runAll 0 script.steps
    run name script settings clock = .ok
      { script := name, steps, notices := last.desk.notices
        events := (last.desk.bus.drain last.receiver).2
        workPackages := (reportedIds script steps).filterMap last.desk.server.stored? } := by
  unfold run
  rw [starts]
  rfl

theorem exists_session {name : String} {script : Script} {settings : EditorSettings} {clock : Clock}
    {report : Report} (ran : run name script settings clock = .ok report) :
    ∃ session, Session.start script settings clock = .ok session ∧
      report.steps = (session.runAll 0 script.steps).2 ∧
      report.events = ((session.runAll 0 script.steps).1.desk.bus.drain session.receiver).2 := by
  rcases hs : Session.start script settings clock with error | session
  · unfold run at ran
    rw [hs] at ran
    cases ran
  · cases ran.symm.trans (run_of_start name hs)
    refine ⟨session, rfl, rfl, ?_⟩
    rw [← session.receiver_runAll 0 script.steps]

theorem exists_report (name : String) {script : Script} {settings : EditorSettings} {clock : Clock}
    (starts : (Session.start script settings clock).toOption.isSome = true) :
    ∃ report, run name script settings clock = .ok report := by
  obtain ⟨session, hsession⟩ := Option.isSome_iff_exists.1 starts
  exact ⟨_, run_of_start name (eq_ok_of_toOption hsession)⟩

end Replay

end Draftboard
