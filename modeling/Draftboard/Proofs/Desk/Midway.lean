import Draftboard.Proofs.Writes
import Draftboard.Proofs.Desk.Fidelity
import Draftboard.Proofs.Desk.InFlight
/-!
# Edits in the middle of a save

Nothing is locked while a save is under way. What is written until the payload is built is saved.
What is written later is not, and it is dropped when the save is settled and the change-set given up.
-/

namespace Draftboard

namespace SaveJob

/-- The commit of a save that the server has taken, with hooks left to run or not. -/
def commit? (job : SaveJob) : Option Commit :=
  match job.stage with
  | .followUp commit | .refetch commit _ | .finished (.ok commit) => some commit
  | .schema .. | .submission .. | .finished (.error _) => none

def changes? (job : SaveJob) : Option Attributes :=
  match job.stage with
  | .submission _ _ changes => some changes
  | .followUp commit | .refetch commit _ | .finished (.ok commit) => some commit.changes
  | .schema .. | .finished (.error _) => none

theorem changes?_of_commit? {job : SaveJob} {commit : Commit} (taken : job.commit? = some commit) :
    job.changes? = some commit.changes := by
  unfold commit? at taken
  unfold changes?
  split at taken <;> simp_all

end SaveJob

/-- What comes next while a save is under way: something is done, or the save takes its next step. -/
inductive SaveTurn where
  | act (action : Desk.Action)
  | step

namespace Desk

/-! ## A save and what is done meanwhile -/

def turn (s : Desk × SaveJob) : SaveTurn → Desk × SaveJob
  | .act action => (s.1.act action, s.2)
  | .step => s.1.advance s.2

def turnAll (s : Desk × SaveJob) (turns : List SaveTurn) : Desk × SaveJob := turns.foldl turn s

/-- A save from when it is accepted, with all that is done between its steps. -/
def saveAmid (d : Desk) (h : Handle) (turns : List SaveTurn) : Desk × SaveJob :=
  turnAll (d.startSave h) turns

/-! ## The payload -/

/-- A save that has failed, or that has built its payload from this change-set. -/
inductive Carries (base : Snapshot) (c : Changeset) (schema : Schema) (job : SaveJob) : Prop
  | failed {error : EditError} (stage : job.stage = .finished (.error error))
  | submits {payload : Payload} (composed : c.buildPayload schema = .ok payload)
      (stage : job.stage = .submission base payload c.changes)
  | reports {commit : Commit} (taken : job.commit? = some commit) (changes : commit.changes = c.changes)

section Carries

variable {base : Snapshot} {c : Changeset} {schema : Schema} {job : SaveJob}

theorem commit?_advance (d : Desk) {commit : Commit} (taken : job.commit? = some commit) :
    (d.advance job).2.commit? = some commit := by
  obtain ⟨h, hooks, stage⟩ := job
  cases stage with
  | schema | submission => cases taken
  | followUp commit =>
    cases hooks with
    | nil => exact taken
    | cons hook rest =>
      cases hook with
      | refreshParent =>
        cases hp : commit.workPackage.parentId? <;> simp only [advance, hp] <;> exact taken
      | _ => exact taken
  | refetch | finished => exact taken

theorem Carries.advance (carries : Carries base c schema job) (d : Desk) :
    Carries base c schema (d.advance job).2 := by
  cases carries with
  | failed stage =>
    rw [advance_of_ended d (by simp [SaveJob.result?, stage])]
    exact .failed stage
  | reports taken changes => exact .reports (commit?_advance d taken) changes
  | @submits payload composed stage =>
    obtain ⟨h, hooks, _⟩ := job
    cases stage
    rcases hu : d.server.update d.clock.now base payload with ⟨error | saved, server⟩
    · simp only [Desk.advance, submit_of_refused hu]
      exact .failed rfl
    · simp only [Desk.advance, submit_of_saved hu]
      exact .reports rfl rfl

theorem Carries.turnAll (turns : List SaveTurn) {s : Desk × SaveJob} (carries : Carries base c schema s.2) :
    Carries base c schema (turnAll s turns).2 := by
  induction turns generalizing s with
  | nil => exact carries
  | cons first rest ih =>
    cases first with
    | act action => exact ih carries
    | step => exact ih (carries.advance s.1)

theorem Carries.changes_eq (carries : Carries base c schema job) {changes : Attributes}
    (built : job.changes? = some changes) : changes = c.changes := by
  cases carries with
  | failed stage => simp [SaveJob.changes?, stage] at built
  | submits composed stage =>
    simp only [SaveJob.changes?, stage] at built
    exact (Option.some.inj built).symm
  | reports taken changes =>
    rw [SaveJob.changes?_of_commit? taken] at built
    exact (Option.some.inj built).symm.trans changes

end Carries

/-! ## The moment the payload is built -/

theorem changes?_turnAll_of_failed {s : Desk × SaveJob} {error : EditError}
    (failed : s.2.stage = .finished (.error error)) (turns : List SaveTurn) :
    (turnAll s turns).2.changes? = none := by
  induction turns generalizing s with
  | nil => simp [turnAll, SaveJob.changes?, failed]
  | cons first rest ih =>
    cases first with
    | act action => exact ih failed
    | step =>
      refine ih (s := turn s .step) ?_
      rw [turn, advance_of_ended s.1 (by simp [SaveJob.result?, failed])]
      exact failed

/-- A save that has anything to submit or report has had its schema before, and built its payload. -/
theorem exists_built {s : Desk × SaveJob} {base : Snapshot} {stage : SchemaStage}
    (seeks : s.2.stage = .schema base stage) {turns : List SaveTurn} {changes : Attributes}
    (built : (turnAll s turns).2.changes? = some changes) :
    ∃ before later schema, turns = before ++ .step :: later ∧
      (turnAll s before).2.stage = .schema base (.has schema) ∧
      Carries base ((turnAll s before).1.changeset s.2.handle) schema (turnAll s turns).2 := by
  induction turns generalizing s stage with
  | nil => simp [turnAll, SaveJob.changes?, seeks] at built
  | cons first rest ih =>
    -- Unless the payload is built at this turn, it is built later.
    have hlater : ∀ {next : SchemaStage}, (turn s first).2.stage = .schema base next →
        (turn s first).2.handle = s.2.handle →
        ∃ before later schema, first :: rest = before ++ .step :: later ∧
          (turnAll s before).2.stage = .schema base (.has schema) ∧
          Carries base ((turnAll s before).1.changeset s.2.handle) schema
            (turnAll s (first :: rest)).2 := by
      intro next hnext hhandle
      obtain ⟨before, later, schema, rfl, hhas, hcarries⟩ := ih hnext built
      rw [hhandle] at hcarries
      exact ⟨first :: before, later, schema, rfl, hhas, hcarries⟩
    cases first with
    | act action => exact hlater seeks rfl
    | step =>
      obtain ⟨d, h, hooks, _⟩ := s
      cases seeks
      have hends := d.seekEnds_advance h hooks base stage
      have hturn : turn (d, { handle := h, hooks, stage := .schema base stage }) .step =
        d.advance { handle := h, hooks, stage := .schema base stage } := rfl
      generalize d.advance { handle := h, hooks, stage := .schema base stage } = stepped at hends hturn
      cases hends with
      | fails error =>
        have hnone := changes?_turnAll_of_failed (congrArg (·.2.stage) hturn) rest
        exact absurd (hnone.symm.trans built) (by simp)
      | goesOn next => exact hlater (congrArg (·.2.stage) hturn) (congrArg (·.2.handle) hturn)
      | @composes schema payload has composed =>
        have hcarries : Carries base (d.changeset h) schema
            (turn (d, { handle := h, hooks, stage := .schema base stage }) .step).2 := by
          rw [hturn]
          exact .submits composed rfl
        exact ⟨[], rest, schema, rfl, by rw [has]; rfl, hcarries.turnAll rest⟩

theorem exists_built_saveAmid {d : Desk} {h : Handle} {turns : List SaveTurn} {changes : Attributes}
    (built : (d.saveAmid h turns).2.changes? = some changes) :
    ∃ before later schema, turns = before ++ .step :: later ∧
      (d.saveAmid h before).2.stage = .schema (d.changeset h).pristine (.has schema) ∧
      Carries (d.changeset h).pristine ((d.saveAmid h before).1.changeset h) schema
        (d.saveAmid h turns).2 := by
  cases hf : (d.changeset h).inFlight with
  | true =>
    have hnone := changes?_turnAll_of_failed (s := d.startSave h)
      (congrArg (·.2.stage) (startSave_of_inFlight hf)) turns
    exact absurd (hnone.symm.trans built) (by simp)
  | false =>
    have hstart := startSave_of_free hf
    have hbuilt := exists_built (s := d.startSave h) (congrArg (·.2.stage) hstart) built
    rw [congrArg (·.2.handle) hstart] at hbuilt
    exact hbuilt

/-! ## What is submitted -/

theorem server_advance_of_submission {d : Desk} {job : SaveJob} {pristine : Snapshot}
    {payload : Payload} {changes : Attributes} (ready : job.stage = .submission pristine payload changes) :
    (d.advance job).1.server = (d.server.update d.clock.now pristine payload).2 := by
  obtain ⟨h, hooks, stage⟩ := job
  cases ready
  rcases hu : d.server.update d.clock.now pristine payload with ⟨error | saved, server⟩
  · simp only [advance, submit_of_refused hu]
    rfl
  · simp only [advance, submit_of_saved hu, server_settle]
    rfl

/-- What a save submits and reports is what the change-set held at the moment the payload was built,
whatever comes between accept and that. Nothing that is done after it counts. -/
theorem submits_edits_of_payload {d : Desk} {h : Handle} {turns : List SaveTurn} {changes : Attributes}
    (built : (d.saveAmid h turns).2.changes? = some changes) :
    ∃ before later schema, turns = before ++ .step :: later ∧
      (d.saveAmid h before).2.stage = .schema (d.changeset h).pristine (.has schema) ∧
      let c := (d.saveAmid h before).1.changeset h
      let sending := d.saveAmid h turns
      changes = c.changes ∧
      ∀ {pristine payload submitted}, sending.2.stage = .submission pristine payload submitted →
        submitted = c.changes ∧ (∀ name, payload.get? name = c.submitted? name) ∧
        (sending.1.advance sending.2).1.server =
          (sending.1.server.update sending.1.clock.now pristine payload).2 := by
  obtain ⟨before, later, schema, heq, hhas, hcarries⟩ := exists_built_saveAmid built
  refine ⟨before, later, schema, heq, hhas, hcarries.changes_eq built, fun ready => ?_⟩
  refine ⟨hcarries.changes_eq (by simp [SaveJob.changes?, ready]), ?_, server_advance_of_submission ready⟩
  cases hcarries with
  | failed stage =>
    rw [ready] at stage
    cases stage
  | submits composed stage =>
    rw [ready] at stage
    cases stage
    exact Changeset.get?_of_buildPayload composed
  | reports taken =>
    simp [SaveJob.commit?, ready] at taken

/-- While the schema of a cleared note is asked for, the note is written anew; once the payload is
built, all edits are dropped. What was written is what is saved. -/
theorem submits_edits_of_payload_rewritten_note :
    let turns : List SaveTurn :=
      [.step, .act (.setValue 1 "note" (.text "new")), .step, .step, .step, .act (.reset 1), .step]
    let written : Attributes := (∅ : Attributes).insert "note" (.text "new")
    (noteDesk.saveAmid 1 turns).2.commit?.map (·.workPackage.value "note") = some (.text "new") ∧
      (noteDesk.saveAmid 1 turns).2.changes? = some written ∧
      ∃ before later, turns = before ++ .step :: later ∧
        ((noteDesk.saveAmid 1 before).1.changeset 1).changes = written := by
  intro turns written
  have hbuilt : (noteDesk.saveAmid 1 turns).2.changes? = some written := by decide +kernel
  obtain ⟨before, later, -, heq, -, hchanges, -⟩ := submits_edits_of_payload hbuilt
  exact ⟨by decide +kernel, hbuilt, before, later, heq, hchanges.symm⟩

/-- That need not be what the change-set held when the save was accepted: this one was to clear the
note, and it submits what was written while the schema was asked for. -/
theorem later_edit_is_submitted :
    let turns : List SaveTurn :=
      [.step, .act (.setValue 1 "note" (.text "new")), .step, .step, .step, .step]
    ∃ commit, (noteDesk.saveAmid 1 turns).2.commit? = some commit ∧
      (noteDesk.changeset 1).changes["note"]? = some .null ∧
      commit.changes["note"]? = some (.text "new") ∧
      commit.changes ≠ (noteDesk.changeset 1).changes := by
  intro turns
  have htaken : (noteDesk.saveAmid 1 turns).2.commit?.map (·.changes) =
      some ((∅ : Attributes).insert "note" (.text "new")) := by decide +kernel
  obtain ⟨commit, hcommit, hchanges⟩ := Option.map_eq_some_iff.1 htaken
  refine ⟨commit, hcommit, by decide +kernel, ?_, ?_⟩ <;> rw [hchanges]
  · simp
  · decide +kernel

/-! ## Writes -/

def writes (h : Handle) (list : List (String × AttrValue)) : List Action :=
  list.map fun (name, value) => .setValue h name value

end Desk

namespace SaveTurn

def Writes (h : Handle) : SaveTurn → Prop
  | .act (.setValue k ..) => k = h
  | .act _ => False
  | .step => True

def write? : SaveTurn → Option (String × AttrValue)
  | .act (.setValue _ name value) => some (name, value)
  | _ => none

end SaveTurn

def writesIn (turns : List SaveTurn) : List (String × AttrValue) := turns.filterMap SaveTurn.write?

namespace Desk

section Writes

variable {d : Desk} {h : Handle} (known : d.drafts[h]?.isSome = true)
include known

theorem setValue_self (name : String) (value : AttrValue) :
    (d.setValue h name value).drafts[h]?.isSome = true ∧
      (d.setValue h name value).changeset h = (d.changeset h).setValue name value := by
  obtain ⟨more, heq⟩ := exists_edit d h fun c => (c.setValue name value, ())
  have hknown := isSome_modifyQuietly d h h fun _ => (d.changeset h).setValue name value
  have hwritten := changeset_modifyQuietly d h h (fun _ => (d.changeset h).setValue name value) known
  rw [if_pos rfl] at hwritten
  rw [setValue, heq]
  exact ⟨hknown.trans known, hwritten⟩

theorem actAll_writes (list : List (String × AttrValue)) :
    (d.actAll (writes h list)).drafts[h]?.isSome = true ∧
      (d.actAll (writes h list)).changeset h = (d.changeset h).setValues list := by
  induction list generalizing d with
  | nil => exact ⟨known, rfl⟩
  | cons write rest ih =>
    obtain ⟨hknown, hwrite⟩ := setValue_self known write.1 write.2
    obtain ⟨hrest, hwrites⟩ := ih hknown
    refine ⟨hrest, hwrites.trans ?_⟩
    rw [hwrite]
    rfl

theorem isSome_setInFlight (raised : Bool) : (d.setInFlight h raised).drafts[h]?.isSome = true :=
  (isSome_modifyQuietly d h h _).trans known

theorem changeset_reset : (d.reset h).changeset h = (d.changeset h).clear := by
  obtain ⟨registry, more, heq⟩ := exists_reset d h
  rw [heq]
  exact (changeset_modifyQuietly d h h _ known).trans (if_pos rfl)

theorem changeset_settle_self (commit : Commit) :
    (d.settle h commit).changeset h = { (d.changeset h).clear with inFlight := false } := by
  have hpublish := bystands_published d commit
  rw [← hpublish.drafts] at known
  rw [settle, changeset_reset (isSome_setInFlight known false), changeset_lowered, if_pos rfl,
    hpublish.changeset]
  rfl

theorem value_settle (commit : Commit) (name : String) :
    ((d.settle h commit).changeset h).value name = (d.changeset h).pristine.value name := by
  rw [changeset_settle_self known]
  simp [Changeset.value, Changeset.clear]

end Writes

/-! ## What becomes of a write -/

theorem value_commit_of_change {s s' : Server} {now : Instant} {c : Changeset} {schema : Schema}
    {payload : Payload} {saved : Snapshot} (composed : c.buildPayload schema = .ok payload)
    (sent : s.update now c.pristine payload = (.ok saved, s')) {name : String} {value : AttrValue}
    (change : c.changes[name]? = some value) : (c.commit saved).workPackage.value name = value := by
  obtain ⟨-, hr, -⟩ := Server.update_eq_ok sent
  have hsubmitted : c.submitted? name = some value := by
    rw [Changeset.submitted?, change]
    rfl
  cases hnew : c.pristine.isNew with
  | true => rw [value_commit_new hnew composed hr, hsubmitted, Option.getD_some]
  | false =>
    obtain ⟨current, hp, -, -⟩ := Server.saved_of_stored hnew hr
    rw [value_commit_stored hnew composed hp hr, hsubmitted, Option.some_or, Option.getD_some]

/-- A save of a change-set that shows this, its flag apart. -/
structure Holds (c : Changeset) (h : Handle) (s : Desk × SaveJob) : Prop where
  handle : s.2.handle = h
  known : s.1.drafts[h]?.isSome = true
  shows : ∃ inFlight, s.1.changeset h = { c with inFlight }

section Holds

variable {c : Changeset} {h : Handle} {s : Desk × SaveJob}

theorem Holds.write (holds : Holds c h s) (name : String) (value : AttrValue) :
    Holds (c.setValue name value) h (turn s (.act (.setValue h name value))) := by
  obtain ⟨hknown, hwrite⟩ := setValue_self holds.known name value
  obtain ⟨inFlight, hshows⟩ := holds.shows
  refine ⟨holds.handle, hknown, inFlight, hwrite.trans ?_⟩
  rw [hshows]
  exact Changeset.setValues_inFlight c inFlight [(name, value)]

theorem sameDrafts_of_pending {d : Desk} {job : SaveJob} (pending : (d.advance job).2.isPending = true) :
    d.SameDrafts (d.advance job).1 := by
  cases hp : job.isPending with
  | false =>
    rw [(advance_of_answered d hp).2] at pending
    cases pending
  | true =>
    obtain ⟨h, hooks, stage⟩ := job
    cases stage with
    | followUp | refetch | finished => cases hp
    | schema base stage =>
      have hends := d.seekEnds_advance h hooks base stage
      generalize d.advance _ = stepped at hends pending ⊢
      cases hends with
      | fails => cases pending
      | goesOn next => exact sameDrafts_stepSchema ..
      | composes => exact .refl d
    | submission base payload changes =>
      rcases hs : d.submit h base payload changes with ⟨after, error | commit⟩ <;>
      · simp only [advance, hs] at pending
        cases pending

theorem Holds.step (holds : Holds c h s) (pending : (turn s .step).2.isPending = true) :
    Holds c h (turn s .step) := by
  have hsame := sameDrafts_of_pending pending
  refine ⟨(handle_advance s.1 s.2).trans holds.handle, ?_, ?_⟩
  · exact (congrArg (fun drafts => drafts[h]?.isSome) hsame.drafts).trans holds.known
  · obtain ⟨inFlight, hshows⟩ := holds.shows
    exact ⟨inFlight, (hsame.changeset h).trans hshows⟩

theorem isPending_of_turnAll (turns : List SaveTurn) (pending : (turnAll s turns).2.isPending = true) :
    s.2.isPending = true := by
  induction turns generalizing s with
  | nil => exact pending
  | cons first rest ih =>
    have hnext := ih pending
    cases first with
    | act action => exact hnext
    | step =>
      cases hp : s.2.isPending with
      | true => rfl
      | false =>
        have hanswered := (advance_of_answered s.1 hp).2
        exact absurd (hanswered.symm.trans hnext) (by simp)

theorem Holds.turnAll (holds : Holds c h s) {turns : List SaveTurn}
    (writing : ∀ turn ∈ turns, turn.Writes h) (pending : (turnAll s turns).2.isPending = true) :
    Holds (c.setValues (writesIn turns)) h (turnAll s turns) := by
  induction turns generalizing s c with
  | nil => exact holds
  | cons first rest ih =>
    have hrest : ∀ turn ∈ rest, turn.Writes h := fun turn mem => writing turn (List.mem_cons_of_mem _ mem)
    have hfirst := writing first List.mem_cons_self
    cases first with
    | step => exact ih (holds.step (isPending_of_turnAll rest pending)) hrest pending
    | act action =>
      cases action with
      | setValue k name value =>
        obtain rfl : k = h := hfirst
        exact ih (holds.write name value) hrest pending
      | _ => exact hfirst.elim

end Holds

section Taken

variable {d : Desk} {h : Handle}

theorem holds_startSave (known : d.drafts[h]?.isSome = true) (pending : (d.startSave h).2.isPending = true) :
    Holds (d.changeset h) h (d.startSave h) := by
  cases hf : (d.changeset h).inFlight with
  | true =>
    rw [startSave_of_inFlight hf] at pending
    cases pending
  | false =>
    rw [startSave_of_free hf]
    exact ⟨rfl, isSome_setInFlight known true, exists_changeset_setInFlight d h true⟩

theorem holds_saveAmid (known : d.drafts[h]?.isSome = true) {turns : List SaveTurn}
    (writing : ∀ turn ∈ turns, turn.Writes h) (pending : (d.saveAmid h turns).2.isPending = true) :
    Holds ((d.changeset h).setValues (writesIn turns)) h (d.saveAmid h turns) :=
  (holds_startSave known (isPending_of_turnAll turns pending)).turnAll writing pending

theorem exists_saved {d after : Desk} {job next : SaveJob} {commit : Commit}
    (untaken : job.commit? = none) (answered : d.advance job = (after, next))
    (taken : next.commit? = some commit) :
    ∃ pristine payload changes saved server, job.stage = .submission pristine payload changes ∧
      d.server.update d.clock.now pristine payload = (.ok saved, server) ∧
      commit.workPackage = saved.retainFrom pristine ∧
      after = (d.answered server).settle job.handle commit := by
  obtain ⟨h, hooks, stage⟩ := job
  cases stage with
  | followUp | refetch => cases untaken
  | finished result =>
    cases answered
    exact absurd (untaken.symm.trans taken) (by simp)
  | schema base stage =>
    have hends := d.seekEnds_advance h hooks base stage
    rw [answered] at hends
    cases hends <;> cases taken
  | submission pristine payload changes =>
    rcases hu : d.server.update d.clock.now pristine payload with ⟨error | saved, server⟩
    · simp only [advance, submit_of_refused hu] at answered
      cases answered
      cases taken
    · simp only [advance, submit_of_saved hu] at answered
      cases answered
      cases taken
      exact ⟨pristine, payload, changes, saved, server, rfl, hu, rfl, rfl⟩

theorem isSome_changes?_of_composed {s : Desk × SaveJob} {base : Snapshot} {schema : Schema}
    {payload : Payload} (has : s.2.stage = .schema base (.has schema))
    (composed : (s.1.changeset s.2.handle).buildPayload schema = .ok payload) :
    (turn s .step).2.changes?.isSome = true := by
  obtain ⟨d, h, hooks, _⟩ := s
  cases has
  simp [turn, advance, composeJob, compose, composed, SaveJob.changes?]

theorem exists_taken {after : Desk} {turns : List SaveTurn} {job : SaveJob} {commit : Commit}
    (untaken : (d.saveAmid h turns).2.commit? = none)
    (resolved : turn (d.saveAmid h turns) .step = (after, job)) (taken : job.commit? = some commit) :
    ∃ before later schema payload saved server, turns = before ++ .step :: later ∧
      (d.saveAmid h before).2.stage = .schema (d.changeset h).pristine (.has schema) ∧
      ((d.saveAmid h before).1.changeset h).buildPayload schema = .ok payload ∧
      (d.saveAmid h turns).1.server.update (d.saveAmid h turns).1.clock.now (d.changeset h).pristine
        payload = (.ok saved, server) ∧
      commit.workPackage = saved.retainFrom (d.changeset h).pristine ∧
      after = ((d.saveAmid h turns).1.answered server).settle (d.saveAmid h turns).2.handle commit ∧
      (d.saveAmid h turns).2.isPending = true := by
  obtain ⟨pristine, payload, changes, saved, server, hready, hsent, hsaved, hafter⟩ :=
    exists_saved untaken resolved taken
  have hpending : (d.saveAmid h turns).2.isPending = true := by
    rw [SaveJob.isPending, hready]
  have hbuilt : (d.saveAmid h turns).2.changes? = some changes := by
    simp [SaveJob.changes?, hready]
  obtain ⟨before, later, schema, hturns, hhas, hcarries⟩ := exists_built_saveAmid hbuilt
  cases hcarries with
  | failed stage =>
    rw [hready] at stage
    cases stage
  | @submits payload composed stage =>
    rw [hready] at stage
    cases stage
    exact ⟨before, later, schema, payload, saved, server, hturns, hhas, composed, hsent, hsaved, hafter, hpending⟩
  | reports reported => exact absurd (untaken.symm.trans reported) (by simp)

end Taken

/-- The last value that was written to an attribute before a save was settled is saved, or it is
still the value of the change-set: unless it was written after the payload was built, and is not the
pristine value. -/
theorem last_write_saved_or_kept {d after : Desk} {h : Handle} {earlier : List (String × AttrValue)}
    {during : List SaveTurn} {job : SaveJob} {commit : Commit} {name : String} {value : AttrValue}
    (known : d.drafts[h]?.isSome = true) (writing : ∀ turn ∈ during, turn.Writes h)
    (untaken : ((d.actAll (writes h earlier)).saveAmid h during).2.commit? = none)
    (resolved : turn ((d.actAll (writes h earlier)).saveAmid h during) .step = (after, job))
    (taken : job.commit? = some commit)
    (last : lastWritten? name (earlier ++ writesIn during) = some value)
    (inTime : (∀ before later, during = before ++ later →
        ((d.actAll (writes h earlier)).saveAmid h before).2.changes?.isSome = true →
          lastWritten? name (writesIn later) = none) ∨
      ((d.changeset h).pristine.value name).same value = true) :
    (commit.workPackage.value name).same value = true ∨
      ((after.changeset h).value name).same value = true := by
  obtain ⟨hstart, hearlier⟩ := actAll_writes known earlier
  generalize d.actAll (writes h earlier) = start at untaken resolved inTime hstart hearlier
  have hpristine : (start.changeset h).pristine = (d.changeset h).pristine := by
    rw [hearlier, Changeset.pristine_setValues]
  obtain ⟨before, later, schema, payload, saved, server, hturns, hhas, hcomposed, hsent, hsaved, rfl,
    hpending⟩ := exists_taken untaken resolved taken
  by_cases hkept : ((d.changeset h).pristine.value name).same value = true
  · -- The change-set is given up, and what it was based on shows again.
    have hholds := holds_saveAmid hstart writing hpending
    obtain ⟨inFlight, hshows⟩ := hholds.shows
    have hknown : ((start.saveAmid h during).1.answered server).drafts[h]?.isSome = true := hholds.known
    refine Or.inr ?_
    rw [hholds.handle, value_settle hknown]
    have hbase : (((start.saveAmid h during).1.answered server).changeset h).pristine =
        (d.changeset h).pristine :=
      (congrArg Changeset.pristine hshows).trans ((Changeset.pristine_setValues _ _).trans hpristine)
    rw [hbase]
    exact hkept
  · -- The write went into the payload.
    refine Or.inl ?_
    have hearly : ∀ turn ∈ before, turn.Writes h := fun turn mem =>
      writing turn (hturns ▸ List.mem_append_left _ mem)
    have hwaits : (start.saveAmid h before).2.isPending = true := by
      rw [SaveJob.isPending, hhas]
    have hholds := holds_saveAmid hstart hearly hwaits
    obtain ⟨inFlight, hshows⟩ := hholds.shows
    have hbuilt : (start.saveAmid h (before ++ [.step])).2.changes?.isSome = true := by
      have hstep : start.saveAmid h (before ++ [.step]) = turn (start.saveAmid h before) .step :=
        List.foldl_append
      rw [hstep]
      exact isSome_changes?_of_composed hhas (by rw [hholds.handle]; exact hcomposed)
    have hunwritten := (inTime.resolve_right hkept) (before ++ [.step]) later (by simp [hturns]) hbuilt
    have hwritten : writesIn during = writesIn before ++ writesIn later := by
      rw [hturns]
      exact List.filterMap_append
    rw [hwritten, ← List.append_assoc, lastWritten?_append, hunwritten, Option.none_or] at last
    have hchange : ((start.saveAmid h before).1.changeset h).changes[name]? = some value := by
      rw [hshows, hearlier, ← Changeset.setValues_append]
      refine (Changeset.getElem?_changes_setValues (d.changeset h) name _).trans ?_
      rw [last]
      exact if_neg hkept
    have hbase : ((start.saveAmid h before).1.changeset h).pristine = (start.changeset h).pristine := by
      rw [hshows]
      exact Changeset.pristine_setValues _ _
    rw [← hbase] at hsent hsaved
    have hvalue := value_commit_of_change hcomposed hsent hchange
    rw [hsaved]
    exact (congrArg (AttrValue.same · value) hvalue).trans (AttrValue.same_refl value)

theorem last_write_saved_or_kept_rewritten_note :
    let start := noteDesk.actAll (writes 1 [("note", .text "draft")])
    let during : List SaveTurn := [.step, .act (.setValue 1 "note" (.text "new")), .step, .step, .step,
      .act (.setValue 1 "subject" (.text "later"))]
    let resolved := turn (start.saveAmid 1 during) .step
    ∃ commit, resolved.2.commit? = some commit ∧
      ((commit.workPackage.value "note").same (.text "new") = true ∨
        ((resolved.1.changeset 1).value "note").same (.text "new") = true) := by
  intro start during resolved
  have htaken : resolved.2.commit?.isSome = true := by decide +kernel
  obtain ⟨commit, hcommit⟩ := Option.isSome_iff_exists.1 htaken
  have hwriting : ∀ turn ∈ during, turn.Writes 1 := by simp [during, SaveTurn.Writes]
  have hsplits : ∀ k ≤ 6, (start.saveAmid 1 (during.take k)).2.changes?.isSome = true →
      lastWritten? "note" (writesIn (during.drop k)) = none := by decide +kernel
  have hresolved : turn (start.saveAmid 1 during) .step = (resolved.1, resolved.2) := rfl
  refine ⟨commit, hcommit, last_write_saved_or_kept (by decide +kernel) hwriting (by decide +kernel)
    hresolved hcommit (by decide +kernel) (Or.inl fun before later heq built => ?_)⟩
  have hlength : before.length ≤ 6 := by
    have hsum := congrArg List.length heq
    rw [List.length_append] at hsum
    exact Nat.le_of_add_right_le (Nat.le_of_eq hsum.symm)
  have hsplit := hsplits before.length hlength
  rw [heq, List.take_left, List.drop_left] at hsplit
  exact hsplit built

/-- What is written while the update is under way is lost: the note is saved as it was cleared, and
the change-set shows what it was based on. -/
theorem late_write_is_lost :
    let during : List SaveTurn := [.step, .step, .step, .step, .act (.setValue 1 "note" (.text "new"))]
    let resolved := turn (noteDesk.saveAmid 1 during) .step
    ∃ commit, resolved.2.commit? = some commit ∧
      commit.workPackage.value "note" = .null ∧
      (resolved.1.changeset 1).value "note" = .text "old" ∧
      ¬((commit.workPackage.value "note").same (.text "new") = true ∨
        ((resolved.1.changeset 1).value "note").same (.text "new") = true) := by
  intro during resolved
  have htaken : resolved.2.commit?.map (·.workPackage.value "note") = some .null := by decide +kernel
  obtain ⟨commit, hcommit, hsaved⟩ := Option.map_eq_some_iff.1 htaken
  have hshown : (resolved.1.changeset 1).value "note" = .text "old" := by decide +kernel
  refine ⟨commit, hcommit, hsaved, hshown, ?_⟩
  rw [hsaved, hshown]
  decide

end Desk

end Draftboard
