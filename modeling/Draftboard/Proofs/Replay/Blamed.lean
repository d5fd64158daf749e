import Draftboard.Proofs.Desk.Drops
import Draftboard.Proofs.Replay.Gestures
import Draftboard.Proofs.Replay.Stored
/-!
# Which error a failed step reports

A drop into a group, a drag and the removal of an attachment tell the user of an error and return none.
Their step reads the error back from the notices, where those of all earlier steps are too.
-/

namespace Draftboard

/-! ## What errors say -/

theorem head?_toList_append {start : String} {c : Char} (starts : start.toList.head? = some c)
    (rest : String) : (start ++ rest).toList.head? = some c := by
  rw [String.toList_append, List.head?_append, starts]
  rfl

theorem ApiError.exists_head?_message (error : ApiError) :
    ∃ c, error.message.toList.head? = some c ∧ c ≠ 'f' := by
  cases error with
  | transport text => exact ⟨'t', head?_toList_append rfl text, by decide⟩
  | status n text =>
    refine ⟨'s', ?_, by decide⟩
    iterate 3 refine head?_toList_append ?_ _
    rfl
  | conflict id sent current =>
    refine ⟨'w', ?_, by decide⟩
    iterate 6 refine head?_toList_append ?_ _
    rfl
  | notFound what id =>
    have hname : ∃ c, what.name.toList.head? = some c ∧ c ≠ 'f' := by
      cases what with
      | workPackage => exact ⟨'w', rfl, by decide⟩
      | schema => exact ⟨'s', rfl, by decide⟩
      | attachment => exact ⟨'a', rfl, by decide⟩
    obtain ⟨c, hc, hne⟩ := hname
    refine ⟨c, ?_, hne⟩
    iterate 3 refine head?_toList_append ?_ _
    exact hc
  | rejected errors => exact ⟨'s', head?_toList_append rfl errors.message, by decide⟩

theorem EditError.exists_head?_message (error : EditError) :
    ∃ c, error.message.toList.head? = some c ∧ c ≠ 'f' := by
  cases error with
  | validation errors => exact ⟨'v', head?_toList_append rfl errors.message, by decide⟩
  | saveInFlight id =>
    refine ⟨'a', ?_, by decide⟩
    iterate 2 refine head?_toList_append ?_ _
    rfl
  | api error => exact error.exists_head?_message

theorem EditError.message_ne (error : EditError) : error.message ≠ "failed without a notification" := by
  intro heq
  obtain ⟨c, hc, hne⟩ := error.exists_head?_message
  rw [heq] at hc
  exact hne (Option.some.inj hc).symm

/-! ## Drags and drops that fail -/

theorem Row.ComesTo.exists_told {r : Row} {d d' : Desk} (failed : r.ComesTo d d' (some .failed)) :
    ∃ error, d'.notices = d.notices ++ [.ofError error r.workPackage.id] := by
  generalize houtcome : some Outcome.failed = outcome at failed
  cases failed with
  | unsaved _ unsaved =>
    subst houtcome
    simp at unsaved
  | @saved ready _ acting acts edits left =>
    have hnotices := Desk.notices_save ready.readClock.1 acting.handle
    have hleft := left.notices
    unfold save at houtcome hleft
    rcases hs : ready.readClock.1.save acting.handle with ⟨after, error | commit⟩ <;>
      rw [hs] at hnotices <;> simp only [hs] at houtcome hleft
    · refine ⟨error, hleft.trans ?_⟩
      rw [← acts.workPackage, ← edits.notices]
      exact congrArg (· ++ [Notice.ofError error acting.workPackage.id]) hnotices
    · cases houtcome

theorem Grouping.exists_told {g : Grouping} {d after : Desk} {x : Snapshot} {identifier : String}
    (applies : g.applies = true) (failed : g.drop d x identifier = (after, none)) :
    ∃ error, after.notices = d.notices ++ [.ofError error x.id] := by
  obtain ⟨name, grouped⟩ := Option.isSome_iff_exists.1 applies
  have hnotices := Desk.notices_save_written (d := d) x name (g.valueFor identifier)
  rw [g.drop_eq d x identifier grouped] at failed
  rcases hsave : (d.written x name (g.valueFor identifier)).1.save
    (d.written x name (g.valueFor identifier)).2 with ⟨saved, error | commit⟩ <;>
    rw [hsave] at hnotices failed <;> cases failed
  exact ⟨error, congrArg (· ++ [Notice.ofError error x.id]) hnotices⟩

/-! ## Notices only come -/

namespace Desk

theorem Change.notices_grow {d d' : Desk} {part : Part} (change : d.Change part d') :
    d.notices <+: d'.notices := by
  by_cases silent : part = .notices
  · subst silent
    cases change with
    | notify notice => exact List.prefix_append _ _
  · exact change.notices_eq silent ▸ List.prefix_refl _

theorem Changes.notices_grow {d d' : Desk} {parts : List Part} (changes : d.Changes parts d') :
    d.notices <+: d'.notices :=
  changes.lift (R := fun d d' => d.notices <+: d'.notices) (fun _ => List.prefix_refl _) .trans
    fun _ change => change.notices_grow

end Desk

namespace Replay

/-! ## Reading an error back -/

theorem lastError_of_told {d : Desk} {before : List Notice} {error : EditError} {id : PackageId}
    (told : d.notices = before ++ [.ofError error id]) : Session.lastError d = .ofError error := by
  unfold Session.lastError
  rw [told, List.reverse_append]
  rfl

/-- The steps that read their error back. -/
def Step.isGesture : Step → Bool
  | .groupDrop .. | .timeline .. | .removeAttachment .. => true
  | .create _ | .set .. | .save _ | .reset _ | .stop _ | .filterDefaults .. => false

/-- The error that a step reports: it is the one thing that the user has been told, or the work package
could not be loaded and the user has been told nothing. -/
inductive Step.Blames (step : Step) (before after : Desk) : StepResult → Prop
  | told (error : EditError) (notices : after.notices = before.notices ++ [.ofError error step.target]) :
      Blames step before after (.ofError error)
  | notLoaded (error : ApiError) (load : (before.load step.target).2 = .error error)
      (notices : after.notices = before.notices) : Blames step before after (.ofError (.api error))

namespace Session

/-! ## Steps -/

section Step

variable {s : Session}

theorem blames_groupDrop (sound : s.desk.Sound) {id : PackageId} {grouping : Grouping} {group : String}
    (failed : (s.run (.groupDrop id grouping group)).2.isFailure = true) :
    (Step.groupDrop id grouping group).Blames s.desk (s.run (.groupDrop id grouping group)).1.desk
      (s.run (.groupDrop id grouping group)).2 := by
  have hload := (s.desk.changes_load id).notices_eq (by decide)
  unfold run groupDrop at failed ⊢
  rcases hl : s.desk.load id with ⟨loaded, error | x⟩ <;> rw [hl] at hload <;>
    simp only [hl] at failed ⊢
  · exact .notLoaded error (congrArg Prod.snd hl) hload
  · obtain ⟨rfl, -⟩ := sound.cached_of_load hl
    cases happlies : grouping.applies with
    | false =>
      rw [happlies] at failed
      cases failed
    | true =>
      rcases hd : grouping.drop loaded x group with ⟨after, _ | commit⟩ <;>
        simp only [happlies, if_true, hd] at failed ⊢
      · obtain ⟨error, htold⟩ := Grouping.exists_told happlies hd
        rw [show loaded.notices = s.desk.notices from hload] at htold
        simp only [onDesk, lastError_of_told htold]
        exact .told error htold
      · cases failed

theorem blames_timeline (sound : s.desk.Sound) {id : PackageId} {direction : Timeline.Direction}
    {fromX : Float} {toX : Option Float} {escape : Bool} {rendered : List PackageId}
    (failed : (s.run (.timeline id direction fromX toX escape rendered)).2.isFailure = true) :
    (Step.timeline id direction fromX toX escape rendered).Blames s.desk
      (s.run (.timeline id direction fromX toX escape rendered)).1.desk
      (s.run (.timeline id direction fromX toX escape rendered)).2 := by
  have hload := (s.desk.changes_load id).notices_eq (by decide)
  have hdrags := drags_timeline sound id direction fromX toX escape rendered
  generalize (s.run (.timeline id direction fromX toX escape rendered)).1.desk = after,
    (s.run (.timeline id direction fromX toX escape rendered)).2 = result at failed hdrags ⊢
  cases hdrags with
  | notLoaded load =>
    rw [load] at hload
    exact .notLoaded _ (congrArg Prod.snd load) hload
  | @dragged loaded _ x row outcome load shows publishes comes =>
    rw [load] at hload
    rcases outcome with _ | commit | _ | _ | _
    · cases failed
    · cases failed
    · cases failed
    · cases failed
    · obtain ⟨error, htold⟩ := comes.exists_told
      rw [show loaded.notices = s.desk.notices from hload, shows] at htold
      simp only [outcomeResult, lastError_of_told htold]
      exact .told error htold

theorem blames_removeAttachment {id : PackageId} {attachment : String}
    (filed : ∀ l, s.attachments[id]? = some l → l.workPackage = id)
    (failed : (s.run (.removeAttachment id attachment)).2.isFailure = true) :
    (Step.removeAttachment id attachment).Blames s.desk (s.run (.removeAttachment id attachment)).1.desk
      (s.run (.removeAttachment id attachment)).2 := by
  simp only [run, removeAttachment] at failed ⊢
  rcases hl : s.attachments[id]? with _ | l <;> simp only [hl] at failed ⊢
  · cases failed
  · rcases hf : l.find? attachment with _ | target <;> simp only [hf] at failed ⊢
    · cases failed
    · have hid := filed l hl
      unfold Desk.removeAttachment Desk.request at failed ⊢
      rcases hd : s.desk.server.deleteAttachment target with ⟨error | done, server⟩ <;>
        simp only [hd] at failed ⊢
      · have htold :
            (({ s.desk with server } : Desk).notify (.ofError (.api error) l.workPackage)).notices =
              s.desk.notices ++ [.ofError (.api error) id] := by
          rw [hid]
          rfl
        simp only [Bool.false_eq_true, if_false, lastError_of_told htold]
        exact .told (.api error) htold
      · cases failed

end Step

/-! ## Attachments -/

def FilesAttachments (lists : IdMap AttachmentList) : Prop :=
  ∀ (id : PackageId) (l : AttachmentList), lists[id]? = some l → l.workPackage = id

theorem FilesAttachments.insert {lists : IdMap AttachmentList} (filed : FilesAttachments lists)
    {id : PackageId} {l : AttachmentList} (mine : l.workPackage = id) :
    FilesAttachments (lists.insert id l) := by
  intro other found hfound
  rw [Std.ExtTreeMap.getElem?_insert] at hfound
  split at hfound
  · rename_i heq
    cases hfound
    exact mine.trans (Std.LawfulEqOrd.compare_eq_iff_eq.1 heq)
  · exact filed other found hfound

theorem filesAttachments_attachmentLists (fixtures : List AttachmentFixture) :
    FilesAttachments (attachmentLists fixtures) := by
  refine List.foldlRecOn (motive := FilesAttachments) fixtures _ (fun id l hl => by simp at hl)
    fun lists filed f _ => ?_
  cases hl : lists[f.workPackage]? with
  | none => exact filed.insert rfl
  | some l =>
    have hmine := filed f.workPackage l hl
    exact filed.insert hmine

theorem filesAttachments_run {s : Session} (filed : FilesAttachments s.attachments) (step : Step) :
    FilesAttachments (s.run step).1.attachments := by
  cases step with
  | removeAttachment id attachment =>
    simp only [run, removeAttachment]
    rcases hl : s.attachments[id]? with _ | l <;> dsimp only
    · exact filed
    · rcases l.find? attachment with _ | target
      · exact filed
      · refine filed.insert (Eq.trans ?_ (filed id l hl))
        unfold Desk.removeAttachment
        split <;> rfl
  | _ => exact filed

theorem filesAttachments_runAll {s : Session} (filed : FilesAttachments s.attachments) (index : Nat)
    (steps : List Step) : FilesAttachments (s.runAll index steps).1.attachments := by
  induction steps generalizing s index with
  | nil => exact filed
  | cons step rest ih => exact ih (filesAttachments_run filed step) (index + 1)

theorem filesAttachments_start {script : Script} {settings : EditorSettings} {clock : Clock} {s : Session}
    (opened : start script settings clock = .ok s) : FilesAttachments s.attachments := by
  unfold start at opened
  dsimp only [bind, Except.bind] at opened
  split at opened
  · cases opened
  · cases opened
    exact filesAttachments_attachmentLists script.fixtures.attachments

theorem blames_run {s : Session} (sound : s.desk.Sound) (filed : FilesAttachments s.attachments)
    {step : Step} (gesture : step.isGesture = true) (failed : (s.run step).2.isFailure = true) :
    step.Blames s.desk (s.run step).1.desk (s.run step).2 := by
  cases step with
  | groupDrop => exact blames_groupDrop sound failed
  | timeline => exact blames_timeline sound failed
  | removeAttachment id attachment => exact blames_removeAttachment (filed id) failed
  | create | set | save | reset | stop | filterDefaults => cases gesture

end Session

/-! ## Runs -/

theorem Session.notices_grow_runAll {s : Session} (sound : s.desk.Sound) (index : Nat)
    (steps : List Step) : s.desk.notices <+: (s.runAll index steps).1.desk.notices :=
  (changes_runAll sound index steps).notices_grow

/-- A drop, a drag or the removal of an attachment that fails reports its own error, whatever the steps
before it have told: the user has been told of that error and of nothing else, or the work package could
not be loaded. What has been told stays in the report. -/
theorem failed_gesture_reports_own_error {name : String} {script : Script} {settings : EditorSettings}
    {clock : Clock} {report : Report} (ran : run name script settings clock = .ok report)
    {done rest : List Step} {step : Step} (steps : script.steps = done ++ step :: rest)
    (gesture : step.isGesture = true) {code message : String}
    (failed : report.steps[done.length]?.map (·.result) = some (.failed code message)) :
    ∃ session, Session.start script settings clock = .ok session ∧
      let before := (session.runAll 0 done).1.desk
      let after := (session.runAll 0 (done ++ [step])).1.desk
      step.Blames before after (.failed code message) ∧ after.notices <+: report.notices ∧
        message ≠ "failed without a notification" := by
  obtain ⟨session, hstart, hsteps, -⟩ := exists_session ran
  have hsound := Session.sound_start hstart
  have hdone := Session.sound_runAll hsound 0 done
  have hfiled := Session.filesAttachments_runAll (Session.filesAttachments_start hstart) 0 done
  have hresult : ((session.runAll 0 done).1.run step).2 = .failed code message := by
    rw [hsteps, steps, Session.getElem?_runAll] at failed
    exact Option.some.inj failed
  have hblames := Session.blames_run hdone hfiled gesture (by rw [hresult]; rfl)
  rw [hresult] at hblames
  refine ⟨session, hstart, ?_, ?_, ?_⟩
  · rw [Session.runAll_concat]
    exact hblames
  -- The steps that follow tell more, and take nothing back.
  · have hrest := Session.notices_grow_runAll
      (Session.sound_runAll hsound 0 (done ++ [step])) (0 + (done ++ [step]).length) rest
    rw [← Session.runAll_append, List.append_assoc, List.singleton_append, ← steps] at hrest
    cases ran.symm.trans (run_of_start name hstart)
    exact hrest
  · generalize hfailed : StepResult.failed code message = result at hblames
    cases hblames with
    | told error =>
      cases hfailed
      exact error.message_ne
    | notLoaded error =>
      cases hfailed
      exact (EditError.api error).message_ne

/-- Tasks have no assignee and no status. The second drop of a child reports that both were refused, and
not what the first has told. -/
theorem failed_gesture_reports_own_error_dropped :
    let child : PackageId := { text := "2" }
    let mine : Group := { identifier := "mine", value := .text "M" }
    let into (name : String) : Step := .groupDrop child { name := some name, groups := [mine] } "mine"
    let script : Script := { fixtures := family, steps := [into "assignee", into "status"] }
    let first := "validation failed: assignee is not a known attribute"
    let second := "validation failed: assignee is not a known attribute; status is not a known attribute"
    ∃ report session, run "drops" script {} default = .ok report ∧
      Session.start script {} default = .ok session ∧
      report.steps[0]?.map (·.result) = some (.failed "E1001" first) ∧
      report.steps[1]?.map (·.result) = some (.failed "E1001" second) ∧
      (into "status").Blames (session.runAll 0 [into "assignee"]).1.desk
        (session.runAll 0 script.steps).1.desk (.failed "E1001" second) := by
  intro child mine into script first second
  have starts : (Session.start script {} default).toOption.isSome = true := by decide +kernel
  obtain ⟨report, ran⟩ := exists_report "drops" starts
  have hresults : (run "drops" script {} default).toOption.map (·.steps.map (·.result)) =
      some [.failed "E1001" first, .failed "E1001" second] := by decide +kernel
  rw [ran] at hresults
  have hsteps : report.steps.map (·.result) = _ := Option.some.inj hresults
  have hfirst : report.steps[0]?.map (·.result) = some (.failed "E1001" first) := by
    rw [← List.getElem?_map, hsteps]
    rfl
  have hsecond : report.steps[1]?.map (·.result) = some (.failed "E1001" second) := by
    rw [← List.getElem?_map, hsteps]
    rfl
  obtain ⟨session, hstart, hblames, -⟩ := failed_gesture_reports_own_error ran
    (show script.steps = [into "assignee"] ++ into "status" :: [] from rfl) rfl hsecond
  exact ⟨report, session, ran, hstart, hfirst, hsecond, hblames⟩

end Replay

end Draftboard
