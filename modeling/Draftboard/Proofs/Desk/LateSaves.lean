import Draftboard.Proofs.Desk.Publishing
/-!
# Saves that come back late

Between the submission of a payload and the answer the change-set may be edited, given up, and replaced
by another one for the same work package. The save still comes to its end, and it ends its own
change-set only.
-/

namespace Draftboard.BusyDesk

/-- A save that was submitted and is taken later, after whatever has been done meanwhile, is published
with what was submitted. All other change-sets keep their edits, forms, flags and registrations. -/
theorem late_save_spares_others {d : Desk} (opens : Opens d) (earlier meanwhile : List Event)
    {n : Nat} {job : SaveJob} {pristine saved : Snapshot} {payload : Payload} {changes : Attributes}
    {server : Server} (mine : (course d earlier).saves[n]? = some job)
    (submitted : job.stage = .submission pristine payload changes)
    (unanswered : .move (.advance n) ∉ meanwhile)
    (taken : (course d (earlier ++ meanwhile)).desk.server.update
      (course d (earlier ++ meanwhile)).desk.clock.now pristine payload = (.ok saved, server)) :
    let b := course d (earlier ++ meanwhile)
    let commit : Commit :=
      { id := saved.id, wasNew := pristine.isNew, workPackage := saved.retainFrom pristine, changes }
    b.saves[n]? = some job ∧
      (∀ name value, changes[name]? = some value → payload.get? name = some value) ∧
      ∃ held settled after, b.desk.finish job = (after, .ok commit) ∧
        b.desk.Publishes job.handle d.hooks commit held settled after := by
  intro b commit
  have hb : b = (course d earlier).happenAll meanwhile := happenAll_append _ earlier meanwhile
  have hmine : b.saves[n]? = some job := by
    rw [hb]
    exact saves_happenAll mine unanswered
  have horder : b.Orderly d.hooks := opens.orderly_course (earlier ++ meanwhile)
  have hpending : job.isPending = true := by
    rw [SaveJob.isPending, submitted]
  have hinOrder := horder.saves job (List.mem_of_getElem? hmine) hpending
  have hknown := Desk.known_of_inFlight (horder.disciplined.inFlight hmine hpending)
  -- All that is left of the save is in its stage, whatever has become of the change-set since.
  have hfinish : (b.desk.finish job).2 = .ok commit := by
    obtain ⟨handle, hooks, _⟩ := job
    cases submitted
    rw [Desk.result_finish_submission, taken]
  have hended : b.desk.finish job = ((b.desk.finish job).1, .ok commit) := by
    rw [← hfinish]
  obtain ⟨held, settled, hpublishes⟩ := Desk.exists_publishes horder.filed hknown hpending hended
  rw [hinOrder.hooks] at hpublishes
  refine ⟨hmine, fun name value hchange => ?_, held, settled, _, hended, hpublishes⟩
  obtain ⟨c, schema, rfl, hbuilt⟩ := hinOrder.composed submitted
  rw [Changeset.get?_of_buildPayload hbuilt, Changeset.submitted?, hchange]
  rfl

theorem late_save_spares_newcomer :
    let snapshot : Snapshot := { id := { text := "7" }, lockVersion := 3, typeHref := "task" }
    let earlier : List Event :=
      [.subscribeCommits, .move (.act (.changeFor snapshot none) trivial),
        .move (.act (.setValue 1 "subject" (.text "Mine")) trivial), .move (.start 1),
        .move (.advance 0), .move (.advance 0), .move (.advance 0), .move (.advance 0)]
    let meanwhile : List Event :=
      [.move (.act (.stopEditing snapshot.id) trivial), .move (.act (.changeFor snapshot none) trivial),
        .move (.act (.setValue 2 "subject" (.text "Later")) trivial)]
    let b := course quietDesk (earlier ++ meanwhile)
    ∃ job after commit, b.desk.finish job = (after, .ok commit) ∧ job.handle = 1 ∧
      commit.changes = (∅ : Attributes).insert "subject" (.text "Mine") ∧
      commit.workPackage.subject? = some "Mine" ∧
      (after.changeset 2).changes = (∅ : Attributes).insert "subject" (.text "Later") ∧
      after.registered? snapshot.id = some 2 := by
  intro snapshot earlier meanwhile b
  have hready : ((course quietDesk earlier).saves[0]?.map fun job => (job.handle, job.nextRequest?)) =
      some (1, some .update) := by decide +kernel
  have htaken : ((course quietDesk earlier).saves[0]?.map fun job =>
      (b.desk.finish job).2.toOption.map fun commit =>
        (commit.changes, commit.workPackage.subject?)) =
      some (some ((∅ : Attributes).insert "subject" (.text "Mine"), some "Mine")) := by decide +kernel
  have hnewcomer : (b.desk.changeset 2).changes = (∅ : Attributes).insert "subject" (.text "Later") ∧
      b.desk.registered? snapshot.id = some 2 := by decide +kernel
  obtain ⟨⟨handle, hooks, stage⟩, hjob, hstage⟩ := Option.map_eq_some_iff.1 hready
  rw [hjob, Option.map_some, Option.some.injEq] at htaken
  cases stage with
  | schema pristine stage => cases stage <;> simp [SaveJob.nextRequest?] at hstage
  | followUp | refetch | finished => simp [SaveJob.nextRequest?] at hstage
  | submission pristine payload changes =>
    rcases hu : b.desk.server.update b.desk.clock.now pristine payload with ⟨error | saved, server⟩
    · simp [Desk.result_finish_submission, hu, Except.toOption] at htaken
    · have hb : b = course quietDesk (earlier ++ meanwhile) := rfl
      rw [hb] at hu
      obtain ⟨-, -, held, settled, after, hfinish, hpublishes⟩ :=
        late_save_spares_others opens_quietDesk earlier meanwhile hjob rfl (by simp [meanwhile]) hu
      rw [← hb] at hfinish hpublishes
      have hhandle : handle = 1 := congrArg Prod.fst hstage
      obtain ⟨hchangeset, hregistered⟩ := hpublishes.others 2 (by simp [hhandle])
      rw [hfinish] at htaken
      simp only [Except.toOption, Option.map_some, Option.some.injEq, Prod.mk.injEq] at htaken
      obtain ⟨hchanges, hsubject⟩ := htaken
      refine ⟨_, after, _, hfinish, hhandle, hchanges, hsubject, ?_, ?_⟩
      · rw [hchangeset]
        exact hnewcomer.1
      · exact (hregistered snapshot.id).2 hnewcomer.2

end Draftboard.BusyDesk
