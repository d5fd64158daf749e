import Draftboard.Proofs.Desk.Flags
/-!
# Saves in flight

Any number of saves are under way on one desk, each at its own step, and between the steps users do
what they like. A change-set has its flag up just while one save of it is pending.
-/

namespace Draftboard

/-! ## Pending saves -/

/-- The save has been accepted and not been answered. Hooks run after the answer. -/
def SaveJob.isPending (job : SaveJob) : Bool :=
  match job.stage with
  | .schema .. | .submission .. => true
  | .followUp _ | .refetch .. | .finished _ => false

namespace Desk

inductive SeekEnds (d : Desk) (h : Handle) (hooks : List Hook) (pristine : Snapshot) (stage : SchemaStage) :
    Desk × SaveJob → Prop
  | fails (error : EditError) :
      SeekEnds d h hooks pristine stage ((d.stepSchema pristine.typeHref stage).1.setInFlight h false,
        { handle := h, hooks, stage := .finished (.error error) })
  | goesOn (next : SchemaStage) :
      SeekEnds d h hooks pristine stage ((d.stepSchema pristine.typeHref stage).1,
        { handle := h, hooks, stage := .schema pristine next })
  | composes {schema : Schema} {payload : Payload} (has : stage = .has schema)
      (composed : (d.changeset h).buildPayload schema = .ok payload) :
      SeekEnds d h hooks pristine stage
        (d, { handle := h, hooks, stage := .submission pristine payload (d.changeset h).changes })

section Seek

variable (d : Desk) (h : Handle) (hooks : List Hook) (pristine : Snapshot) (stage : SchemaStage)

theorem seekEnds_seekJob : d.SeekEnds h hooks pristine stage
    (d.seekJob { handle := h, hooks, stage := .schema pristine stage } pristine stage) := by
  rcases hs : d.stepSchema pristine.typeHref stage with ⟨after, result⟩
  have hafter : (d.stepSchema pristine.typeHref stage).1 = after := congrArg Prod.fst hs
  unfold seekJob
  cases result with
  | error error =>
    rw [hs, ← hafter]
    exact .fails (.api error)
  | ok next =>
    rw [hs, ← hafter]
    exact .goesOn next

theorem seekEnds_advance :
    d.SeekEnds h hooks pristine stage (d.advance { handle := h, hooks, stage := .schema pristine stage }) := by
  cases stage with
  | has schema =>
    unfold advance composeJob compose
    dsimp only
    cases hb : (d.changeset h).buildPayload schema with
    | error errors => exact .fails (.validation errors)
    | ok payload => exact .composes rfl hb
  | looks | asks | inserts => exact d.seekEnds_seekJob h hooks pristine _

end Seek

theorem handle_advance (d : Desk) (job : SaveJob) : (d.advance job).2.handle = job.handle := by
  obtain ⟨h, hooks, stage⟩ := job
  cases stage with
  | schema pristine stage =>
    have hends := d.seekEnds_advance h hooks pristine stage
    generalize d.advance _ = stepped at hends ⊢
    cases hends <;> rfl
  | submission pristine payload changes =>
    rcases hs : d.submit h pristine payload changes with ⟨after, error | commit⟩ <;> simp [advance, hs]
  | followUp commit =>
    cases hooks with
    | nil => rfl
    | cons hook rest =>
      cases hook with
      | refreshParent => cases hp : commit.workPackage.parentId? <;> simp [advance, hp]
      | _ => rfl
  | refetch | finished => rfl

theorem advance_of_answered (d : Desk) {job : SaveJob} (answered : job.isPending = false) :
    d.Bystands (d.advance job).1 ∧ (d.advance job).2.isPending = false := by
  have hchanges := changes_advance d job
  obtain ⟨h, hooks, stage⟩ := job
  cases stage with
  | schema | submission => cases answered
  | followUp commit =>
    refine ⟨hchanges.bystands (show Part.hooks ⊆ _ by decide), ?_⟩
    cases hooks with
    | nil => rfl
    | cons hook rest =>
      cases hook with
      | refreshParent => cases hp : commit.workPackage.parentId? <;> simp [advance, hp, SaveJob.isPending]
      | _ => rfl
  | refetch commit parent => exact ⟨(changes_refetch d parent).bystands (by decide), rfl⟩
  | finished result => exact ⟨.refl d, rfl⟩

theorem sameDrafts_stepSchema (d : Desk) (typeHref : String) (stage : SchemaStage) :
    d.SameDrafts (d.stepSchema typeHref stage).1 :=
  (((changes_stepSchema d typeHref stage).mono stage.parts_subset).bystands (by decide)).toSameDrafts

/-! ## What a step of a save does to flags -/

/-- A step goes on and leaves all change-sets alone, or it resolves a pending save. Only then a flag
moves, and it is the one that the save has raised. -/
inductive StepEnds (d : Desk) (job : SaveJob) (after : Desk) (next : SaveJob) : Prop
  | goesOn (pending : next.isPending = job.isPending) (same : d.SameDrafts after)
  | resolves (was : job.isPending = true) (now : next.isPending = false)
      (lowers : d.Lowers job.handle after)

theorem stepEnds_advance {d : Desk} (numbered : d.Numbered) (job : SaveJob) :
    d.StepEnds job (d.advance job).1 (d.advance job).2 := by
  have hlowers : ∀ {after : Desk}, d.SameDrafts after → d.Lowers job.handle
      (after.setInFlight job.handle false) := fun same =>
    (same.keepsFlags numbered).lowers (lowers_setInFlight (same.keepsFlags numbered).numbered _)
  cases hp : job.isPending with
  | false =>
    obtain ⟨hbystands, hanswered⟩ := advance_of_answered d hp
    exact .goesOn (hanswered.trans hp.symm) hbystands.toSameDrafts
  | true =>
    obtain ⟨h, hooks, stage⟩ := job
    cases stage with
    | followUp | refetch | finished => cases hp
    | schema pristine stage =>
      have hends := d.seekEnds_advance h hooks pristine stage
      generalize d.advance _ = stepped at hends ⊢
      cases hends with
      | fails error => exact .resolves rfl rfl (hlowers (sameDrafts_stepSchema ..))
      | goesOn next => exact .goesOn rfl (sameDrafts_stepSchema ..)
      | composes => exact .goesOn rfl (.refl d)
    | submission pristine payload changes =>
      rcases hu : d.server.update d.clock.now pristine payload with ⟨error | saved, server⟩
      all_goals have hsame : d.SameDrafts (d.answered server) := ⟨rfl, rfl⟩
      · simp only [advance, submit_of_refused hu]
        exact .resolves rfl rfl (hlowers hsame)
      · have hkeeps := hsame.keepsFlags numbered
        simp only [advance, submit_of_saved hu]
        exact .resolves rfl rfl (hkeeps.lowers (lowers_settle hkeeps.numbered h _))

/-! ## How a save starts -/

/-- A save that starts is over at once and has moved no flag; or it was accepted, and pends with the
flag of its change-set up, which was down before. -/
inductive StartEnds (d : Desk) (h : Handle) (after : Desk) (job : SaveJob) : Prop
  | ended (pending : job.isPending = false) (keeps : d.KeepsFlags after)
  | pends (free : (d.changeset h).inFlight = false) (handle : job.handle = h)
      (pending : job.isPending = true) (numbered : after.Numbered)
      (inFlight : ∀ k, (after.changeset k).inFlight =
        if h = k then true else (d.changeset k).inFlight)

theorem startEnds_startSave {d : Desk} (numbered : d.Numbered) {h : Handle}
    (known : d.drafts[h]?.isSome = true) :
    d.StartEnds h (d.startSave h).1 (d.startSave h).2 := by
  cases hf : (d.changeset h).inFlight with
  | true =>
    rw [startSave_of_inFlight hf]
    exact .ended rfl ((SameDrafts.refl d).keepsFlags numbered)
  | false =>
    rw [startSave_of_free hf]
    exact .pends hf rfl rfl (numbered_modifyQuietly numbered h _) (inFlight_setInFlight known true)

/-! ## What is done between the steps -/

/-- An action that is not itself a save, and that has no flag at hand. -/
def Action.LeavesFlags : Action → Prop
  | .save .. => False
  | .detached changeset => changeset.inFlight = false
  | .modify _ edits => ∀ c, (edits.apply c).inFlight = c.inFlight
  | _ => True

theorem changes_of_leavesFlags (d : Desk) {action : Action} (leaves : action.LeavesFlags) :
    d.Changes Part.acting (d.act action) := by
  cases action with
  | detached c =>
    have hdraft : d.Changes [.drafts] (d.newDraft { changeset := c, reported := false }).1 :=
      Change.changes (.draft leaves)
    exact hdraft.mono (by decide)
  | modify h edits => exact (changes_edit d (edits.pristine_apply _) (leaves _)).mono (by decide)
  | save h hooks => exact leaves.elim
  | _ => exact (changes_act d (by simp)).mono (by simp [Action.parts, Part.acting])

end Desk

/-! ## Many saves at once -/

/-- A desk with all the saves that were attempted on it, in the order they were. -/
structure BusyDesk where
  desk : Desk
  saves : List SaveJob := []

namespace BusyDesk

inductive Move where
  | act (action : Desk.Action) (leaves : action.LeavesFlags)
  /-- A save is attempted. -/
  | start (h : Handle)
  /-- One of the saves takes its next step. -/
  | advance (n : Nat)

def move (b : BusyDesk) : Move → BusyDesk
  | .act action _ => { b with desk := b.desk.act action }
  | .start h =>
    if b.desk.drafts[h]?.isSome then
      let (desk, job) := b.desk.startSave h
      { desk, saves := b.saves ++ [job] }
    else b
  | .advance n =>
    match b.saves[n]? with
    | none => b
    | some job =>
      let (desk, job) := b.desk.advance job
      { desk, saves := b.saves.set n job }

def moveAll (b : BusyDesk) (moves : List Move) : BusyDesk := moves.foldl move b

/-- One more save was attempted and is over at once, for another one is under way. -/
def refused (b : BusyDesk) (h : Handle) : BusyDesk :=
  { b with saves := b.saves ++
    [{ handle := h, hooks := b.desk.hooks,
       stage := .finished (.error (.saveInFlight (b.desk.changeset h).id)) }] }

theorem move_start_of_inFlight {b : BusyDesk} {h : Handle}
    (raised : (b.desk.changeset h).inFlight = true) : b.move (.start h) = b.refused h := by
  simp only [move, Desk.known_of_inFlight raised, if_true, Desk.startSave_of_inFlight raised, refused]

def pendingOn (b : BusyDesk) (h : Handle) : Nat :=
  b.saves.countP fun job => job.isPending && job.handle = h

structure Disciplined (b : BusyDesk) : Prop where
  numbered : b.desk.Numbered
  pendingOn : ∀ h, b.pendingOn h = if (b.desk.changeset h).inFlight then 1 else 0

theorem Disciplined.act {b : BusyDesk} (h : b.Disciplined) {action : Desk.Action}
    (leaves : action.LeavesFlags) : (b.move (.act action leaves)).Disciplined := by
  have hkeeps := (b.desk.changes_of_leavesFlags leaves).keepsFlags (by decide) h.numbered
  refine ⟨hkeeps.numbered, fun k => (h.pendingOn k).trans ?_⟩
  rw [← hkeeps.inFlight k]
  rfl

theorem Disciplined.start {b : BusyDesk} (h : b.Disciplined) (k : Handle) :
    (b.move (.start k)).Disciplined := by
  unfold move
  dsimp only
  split
  · rename_i known
    have hstart := Desk.startEnds_startSave h.numbered known
    generalize b.desk.startSave k = started at hstart
    obtain ⟨after, job⟩ := started
    cases hstart with
    | ended pending keeps =>
      refine ⟨keeps.numbered, fun j => ?_⟩
      have hold := h.pendingOn j
      dsimp only at pending keeps ⊢
      rw [keeps.inFlight, ← hold]
      simp [BusyDesk.pendingOn, pending]
    | pends free handle pending numbered inFlight =>
      refine ⟨numbered, fun j => ?_⟩
      have hold := h.pendingOn j
      dsimp only at pending handle inFlight ⊢
      rw [inFlight]
      unfold BusyDesk.pendingOn at hold ⊢
      rw [List.countP_append, hold, List.countP_singleton, pending, handle]
      by_cases heq : k = j
      · subst heq
        simp [free]
      · simp [heq]
  · exact h

theorem Disciplined.advance {b : BusyDesk} (h : b.Disciplined) (n : Nat) :
    (b.move (.advance n)).Disciplined := by
  unfold move
  dsimp only
  split
  · exact h
  · rename_i job hjob
    obtain ⟨hlt, hget⟩ := List.getElem?_eq_some_iff.1 hjob
    have hstep := Desk.stepEnds_advance h.numbered job
    have handle := b.desk.handle_advance job
    generalize b.desk.advance job = stepped at hstep handle
    obtain ⟨after, next⟩ := stepped
    have hcount : ∀ j, ({ desk := after, saves := b.saves.set n next } : BusyDesk).pendingOn j =
        (b.pendingOn j - if (job.isPending && job.handle = j) = true then 1 else 0) +
          if (next.isPending && next.handle = j) = true then 1 else 0 := by
      intro j
      unfold BusyDesk.pendingOn
      rw [List.countP_set hlt, hget]
    have hcounted : ∀ j, (if (job.isPending && job.handle = j) = true then 1 else 0) ≤ b.pendingOn j := by
      intro j
      split
      · rename_i hj
        exact List.countP_pos_iff.2 ⟨job, List.mem_of_getElem? hjob, hj⟩
      · exact Nat.zero_le _
    cases hstep with
    | goesOn pending same =>
      refine ⟨(same.keepsFlags h.numbered).numbered, fun j => ?_⟩
      dsimp only at handle pending same ⊢
      rw [hcount, handle, pending, Nat.sub_add_cancel (hcounted j), same.changeset]
      exact h.pendingOn j
    | resolves was now lowers =>
      refine ⟨lowers.numbered, fun j => ?_⟩
      have hold := h.pendingOn j
      have hone := hcounted j
      dsimp only at now lowers ⊢
      rw [hcount, lowers.inFlight, now]
      by_cases heq : job.handle = j
      · -- The flag was up for this save, so it is the only one that pends.
        simp only [was, heq, decide_true, Bool.and_self, if_true] at hone ⊢
        split at hold
        · simp [hold]
        · omega
      · simp [heq, hold]

theorem Disciplined.move {b : BusyDesk} (h : b.Disciplined) (move : Move) :
    (b.move move).Disciplined := by
  cases move with
  | act action leaves => exact h.act leaves
  | start k => exact h.start k
  | advance n => exact h.advance n

theorem Disciplined.moveAll {b : BusyDesk} (h : b.Disciplined) (moves : List Move) :
    (b.moveAll moves).Disciplined := by
  induction moves generalizing b with
  | nil => exact h
  | cons first rest ih => exact ih (h.move first)

/-- A desk on which no save has been attempted. -/
structure Rests (d : Desk) : Prop where
  numbered : d.Numbered
  lowered : ∀ h, (d.changeset h).inFlight = false

theorem Rests.disciplined {d : Desk} (h : Rests d) : ({ desk := d } : BusyDesk).Disciplined where
  numbered := h.numbered
  pendingOn k := by
    rw [h.lowered]
    rfl

/-- Whatever is done in whatever order, the flag of a change-set is up just while one save of it is
pending, and two never are. A save attempted meanwhile is refused and changes nothing. The steps
that a save takes once it has been answered leave all change-sets alone. -/
theorem in_flight_discipline {d : Desk} (rests : Rests d) (moves : List Move) :
    let b := ({ desk := d } : BusyDesk).moveAll moves
    (∀ h, b.pendingOn h = if (b.desk.changeset h).inFlight then 1 else 0) ∧
    (∀ h, (b.desk.changeset h).inFlight = true →
      b.move (.start h) = { b with saves := b.saves ++
        [{ handle := h, hooks := b.desk.hooks,
           stage := .finished (.error (.saveInFlight (b.desk.changeset h).id)) }] }) ∧
    (∀ job ∈ b.saves, job.isPending = false →
      ∀ h, (b.desk.advance job).1.changeset h = b.desk.changeset h) := by
  intro b
  have hb : b.Disciplined := rests.disciplined.moveAll moves
  refine ⟨hb.pendingOn, fun h raised => ?_, fun job _ answered h => ?_⟩
  · exact move_start_of_inFlight raised
  · cases Desk.stepEnds_advance hb.numbered job with
    | goesOn _ same => exact same.changeset h
    | resolves was =>
      rw [answered] at was
      cases was

def quietDesk : Desk :=
  let stored : Snapshot := { id := { text := "7" }, lockVersion := 3, typeHref := "task" }
  let schema : Schema :=
    { typeHref := "task", fields := (∅ : TextMap FieldSchema).insert "subject" { writable := true } }
  { server := (({} : Server).insert stored).insertSchema schema
    hooks := [.probe "first" false, .probe "second" true] }

theorem in_flight_discipline_hook_phase :
    let snapshot : Snapshot := { id := { text := "7" }, lockVersion := 3, typeHref := "task" }
    let b := ({ desk := quietDesk } : BusyDesk).moveAll
      [.act (.changeFor snapshot none) trivial, .act (.setValue 1 "subject" (.text "Mine")) trivial,
        .start 1, .start 1, .advance 0, .advance 0, .advance 0, .advance 0, .advance 0, .start 1,
        .advance 0]
    Rests quietDesk ∧ (b.desk.changeset 1).inFlight = true ∧ b.pendingOn 1 = 1 ∧
      ∃ job ∈ b.saves, job.isPending = false ∧
        ((b.desk.advance job).1.changeset 1).inFlight = true := by
  intro snapshot b
  have rests : Rests quietDesk :=
    { numbered := fun known => by simp [quietDesk] at known
      lowered := fun h => by simp [quietDesk, Desk.changeset]; rfl }
  obtain ⟨hflag, -, hhooks⟩ := in_flight_discipline rests
    [.act (.changeFor snapshot none) trivial, .act (.setValue 1 "subject" (.text "Mine")) trivial,
      .start 1, .start 1, .advance 0, .advance 0, .advance 0, .advance 0, .advance 0, .start 1,
      .advance 0]
  have raised : (b.desk.changeset 1).inFlight = true := by decide +kernel
  have answered : b.saves[0]?.map SaveJob.isPending = some false := by decide +kernel
  obtain ⟨job, hjob, hanswered⟩ := Option.map_eq_some_iff.1 answered
  have hmem := List.mem_of_getElem? hjob
  refine ⟨rests, raised, ?_, job, hmem, hanswered, ?_⟩
  · exact (hflag 1).trans (if_pos raised)
  · rw [hhooks job hmem hanswered 1]
    exact raised

end BusyDesk

end Draftboard
