import Draftboard.Proofs.Desk.Course
import Draftboard.Proofs.Desk.Commits
/-!
# Saves are published once and in order

Subscribers of commits come and go, and hooks may fail. A save that the server takes is told once to each
subscriber there is, while the change-set is still there and the saved snapshot is in the cache. Then
the change-set is given up, and then each hook runs once.
-/

namespace Draftboard

namespace Desk

/-! ## The record and the hooks -/

def requeue (d : Desk) (op : Operation) (errors : List ApiError) : Desk :=
  { d with server := d.server.requeue op errors }

section Requeue

variable (d : Desk) (errors : List ApiError)

theorem stepSchema_requeue (typeHref : String) (stage : SchemaStage) :
    (d.requeue .fetch errors).stepSchema typeHref stage =
      ((d.stepSchema typeHref stage).1.requeue .fetch errors, (d.stepSchema typeHref stage).2) := by
  cases stage with
  | looks =>
    unfold stepSchema
    dsimp only
    cases hs : d.schemas[typeHref]? <;> simp [requeue, hs]
  | asks =>
    have hserver := Server.fetchSchema_requeue (by decide : Operation.fetch ≠ .schema) errors d.server typeHref
    unfold stepSchema request
    dsimp only
    rw [show (d.requeue .fetch errors).server = d.server.requeue .fetch errors from rfl, hserver]
    rcases d.server.fetchSchema typeHref with ⟨error | schema, after⟩ <;> rfl
  | inserts | has => rfl

variable (h : Handle) (hooks others : List Hook) (pristine : Snapshot)

theorem advance_requeue (stage : SchemaStage) :
    (d.requeue .fetch errors).advance { handle := h, hooks := others, stage := .schema pristine stage } =
      let stepped := d.advance { handle := h, hooks, stage := .schema pristine stage }
      (stepped.1.requeue .fetch errors, { stepped.2 with hooks := others }) := by
  cases stage with
  | has schema =>
    have hcompose : (d.requeue .fetch errors).compose h schema = d.compose h schema := rfl
    unfold advance composeJob
    dsimp only
    rw [hcompose]
    cases d.compose h schema <;> rfl
  | looks | asks | inserts =>
    unfold advance seekJob
    dsimp only
    rw [stepSchema_requeue]
    rcases d.stepSchema pristine.typeHref _ with ⟨after, error | next⟩ <;> rfl

theorem result_finish_submission (payload : Payload) (changes : Attributes) :
    (d.finish { handle := h, hooks, stage := .submission pristine payload changes }).2 =
      match (d.server.update d.clock.now pristine payload).1 with
      | .error error => .error (.api error)
      | .ok saved => .ok { id := saved.id, wasNew := pristine.isNew,
                           workPackage := saved.retainFrom pristine, changes } := by
  rw [finish_submission]
  rcases hu : d.server.update d.clock.now pristine payload with ⟨error | saved, server⟩
  · simp only [submit_of_refused hu]
    rfl
  · simp only [submit_of_saved hu]

theorem result_submission_requeue (payload : Payload) (changes : Attributes) :
    ((d.requeue .fetch errors).finish
      { handle := h, hooks := others, stage := .submission pristine payload changes }).2 =
      (d.finish { handle := h, hooks, stage := .submission pristine payload changes }).2 := by
  have hserver := Server.update_requeue (by decide : Operation.fetch ≠ .update) errors d.server
    d.clock.now pristine payload
  rw [result_finish_submission, result_finish_submission]
  exact congrArg (fun sent : Except ApiError Snapshot × Server => match sent.1 with
    | .error error => (.error (.api error) : Except EditError Commit)
    | .ok saved => .ok { id := saved.id, wasNew := pristine.isNew,
                         workPackage := saved.retainFrom pristine, changes }) hserver

end Requeue

/-- What a save that pends will give does not depend on the hooks, nor on what they fetch. -/
theorem result_finish_requeue (d : Desk) {job : SaveJob} (pending : job.isPending = true)
    (hooks : List Hook) (errors : List ApiError) :
    ((d.requeue .fetch errors).finish { job with hooks }).2 = (d.finish job).2 := by
  induction hn : job.stepsLeft using Nat.strongRecOn generalizing d job with
  | ind n ih =>
    obtain ⟨h, registered, stage⟩ := job
    cases stage with
    | followUp | refetch | finished => cases pending
    | submission pristine payload changes => exact result_submission_requeue ..
    | schema pristine stage =>
      have hends := d.seekEnds_advance h registered pristine stage
      have hlt := d.stepsLeft_advance_lt { handle := h, hooks := registered, stage := .schema pristine stage } rfl
      rw [← finish_advance, ← finish_advance d, d.advance_requeue errors h registered hooks]
      generalize d.advance _ = stepped at hends hlt ⊢
      cases hends with
      | fails error => rfl
      | goesOn next => exact ih _ (hn ▸ hlt) _ rfl rfl
      | composes => exact result_submission_requeue ..

end Desk

namespace BusyDesk

/-! ## Who is subscribed -/

/-- A subscriber was given this number, and it has not gone since. -/
def Subscribed (b : BusyDesk) (events : List Event) (number : Nat) : Prop :=
  ∃ before later, events = before ++ .subscribeCommits :: later ∧
    (b.happenAll before).desk.subscribeCommits.2 = number ∧ .unsubscribeCommits number ∉ later

theorem not_subscribed_nil (b : BusyDesk) (k : Nat) : ¬b.Subscribed [] k := by
  rintro ⟨before, later, heq, -⟩
  simp at heq

theorem subscribed_cons {b : BusyDesk} {event : Event} {rest : List Event} {k : Nat} :
    b.Subscribed (event :: rest) k ↔
      (event = .subscribeCommits ∧ b.desk.subscribeCommits.2 = k ∧ .unsubscribeCommits k ∉ rest) ∨
        (b.happen event).Subscribed rest k := by
  constructor
  · rintro ⟨before, later, heq, hnumber, hstays⟩
    cases before with
    | nil =>
      obtain ⟨rfl, rfl⟩ := List.cons.inj heq
      exact Or.inl ⟨rfl, hnumber, hstays⟩
    | cons first before =>
      obtain ⟨rfl, rfl⟩ := List.cons.inj heq
      exact Or.inr ⟨before, later, rfl, hnumber, hstays⟩
  · rintro (⟨rfl, hnumber, hstays⟩ | ⟨before, later, rfl, hnumber, hstays⟩)
    · exact ⟨[], rest, rfl, hnumber, hstays⟩
    · exact ⟨event :: before, later, rfl, hnumber, hstays⟩

/-- Numbers are given out in order, so subscribers in order of their numbers are in the order they
came. -/
structure InSequence (d : Desk) : Prop where
  pairwise : d.commitSubscriptions.Pairwise (· < ·)
  number_le : ∀ k ∈ d.commitSubscriptions, k ≤ d.lastCommitNumber

section Course

variable {b : BusyDesk}

theorem mem_commitSubscriptions_happen (event : Event) (k : Nat) :
    k ∈ (b.happen event).desk.commitSubscriptions ↔
      (k ∈ b.desk.commitSubscriptions ∧ event ≠ .unsubscribeCommits k) ∨
        (event = .subscribeCommits ∧ b.desk.subscribeCommits.2 = k) := by
  cases event with
  | move move =>
    have hsame : (b.happen (.move move)).desk.commitSubscriptions = b.desk.commitSubscriptions :=
      (b.changes_move move).keepsHouse.commitSubscriptions
    simp [hsame]
  | subscribeCommits =>
    simp only [happen, Desk.subscribeCommits, List.mem_append, List.mem_singleton, true_and, ne_eq,
      reduceCtorEq, not_false_eq_true, and_true, eq_comm (a := k)]
  | unsubscribeCommits number =>
    have hgone : k ≠ number ↔ Event.unsubscribeCommits number ≠ .unsubscribeCommits k := by
      simp [eq_comm]
    simp [happen, Desk.unsubscribeCommits, ← hgone]
  | _ => simp [happen, Desk.modifyQuietly, Desk.subscribeCache, Desk.unsubscribeCache]

theorem InSequence.happen (sequence : InSequence b.desk) (event : Event) :
    InSequence (b.happen event).desk := by
  cases event with
  | move move =>
    have hhouse : b.desk.KeepsHouse (b.happen (.move move)).desk := (b.changes_move move).keepsHouse
    refine ⟨?_, ?_⟩
    · rw [hhouse.commitSubscriptions]
      exact sequence.pairwise
    · rw [hhouse.commitSubscriptions, hhouse.lastCommitNumber]
      exact sequence.number_le
  | subscribeCommits =>
    refine ⟨List.pairwise_append.2 ⟨sequence.pairwise, List.pairwise_singleton _ _, ?_⟩, ?_⟩
    · intro k hk new hnew
      rw [List.mem_singleton.1 hnew]
      exact Nat.lt_succ_of_le (sequence.number_le k hk)
    · intro k hk
      rcases List.mem_append.1 hk with hk | hk
      · exact Nat.le_succ_of_le (sequence.number_le k hk)
      · exact Nat.le_of_eq (List.mem_singleton.1 hk)
  | unsubscribeCommits number =>
    exact ⟨sequence.pairwise.filter _, fun k hk => sequence.number_le k (List.mem_filter.1 hk).1⟩
  | _ => exact ⟨sequence.pairwise, sequence.number_le⟩

theorem InSequence.happenAll (sequence : InSequence b.desk) (events : List Event) :
    InSequence (b.happenAll events).desk := by
  induction events generalizing b with
  | nil => exact sequence
  | cons first rest ih => exact ih (sequence.happen first)

theorem mem_commitSubscriptions_happenAll (events : List Event) (k : Nat) :
    k ∈ (b.happenAll events).desk.commitSubscriptions ↔
      (k ∈ b.desk.commitSubscriptions ∧ .unsubscribeCommits k ∉ events) ∨ b.Subscribed events k := by
  induction events generalizing b with
  | nil => simp [BusyDesk.happenAll, not_subscribed_nil]
  | cons first rest ih =>
    have hrest := ih (b := b.happen first)
    have hfirst := mem_commitSubscriptions_happen (b := b) first k
    have hstays : .unsubscribeCommits k ∉ first :: rest ↔
        first ≠ .unsubscribeCommits k ∧ .unsubscribeCommits k ∉ rest := by
      simp [eq_comm]
    rw [hfirst, or_and_right, and_assoc, and_assoc, or_assoc, ← subscribed_cons, ← hstays] at hrest
    exact hrest

end Course

theorem Opens.inSequence {d : Desk} (h : Opens d) : InSequence d := by
  refine ⟨?_, ?_⟩ <;> rw [h.commitSubscriptions] <;> simp

theorem Opens.commitSubscriptions_course {d : Desk} (h : Opens d) (events : List Event) :
    (course d events).desk.commitSubscriptions.Pairwise (· < ·) ∧
      ∀ k, k ∈ (course d events).desk.commitSubscriptions ↔
        ({ desk := d } : BusyDesk).Subscribed events k := by
  refine ⟨(h.inSequence.happenAll events).pairwise, fun k => ?_⟩
  refine (mem_commitSubscriptions_happenAll events k).trans ?_
  simp [h.commitSubscriptions]

/-! ## Publishing -/

/-- Whatever has happened before, a save that is taken puts its snapshot into the cache, then tells each
subscriber once of the commit that it gives, in the order they came, then gives up the change-set, and
then runs each hook once, in the order they are registered. The commit is the same whichever hooks
there are and whatever they can fetch. -/
theorem publishes_once_in_order {d after : Desk} (opens : Opens d) (events : List Event) {n : Nat}
    {job : SaveJob} {commit : Commit} (mine : (course d events).saves[n]? = some job)
    (pending : job.isPending = true)
    (saved : (course d events).desk.finish job = (after, .ok commit)) :
    let before := (course d events).desk
    before.commitSubscriptions.Pairwise (· < ·) ∧
      (∀ k, k ∈ before.commitSubscriptions ↔ ({ desk := d } : BusyDesk).Subscribed events k) ∧
      (∃ held settled, before.Publishes job.handle d.hooks commit held settled after) ∧
      ∀ (hooks : List Hook) (errors : List ApiError),
        ((before.requeue .fetch errors).finish { job with hooks }).2 = .ok commit := by
  intro before
  have horder := opens.orderly_course events
  have hhooks := (horder.saves job (List.mem_of_getElem? mine) pending).hooks
  have hknown := Desk.known_of_inFlight (horder.disciplined.inFlight mine pending)
  obtain ⟨hpairwise, hsubscribed⟩ := opens.commitSubscriptions_course events
  refine ⟨hpairwise, hsubscribed, ?_, fun hooks errors => ?_⟩
  · rw [← hhooks]
    exact Desk.exists_publishes horder.filed hknown pending saved
  · rw [Desk.result_finish_requeue before pending hooks errors, saved]

/-- Three have subscribed and the second has gone when an edit is saved. The other two are told of it
while the change-set is being saved, and then both hooks run, although the second one fails. -/
theorem publishes_once_in_order_to_two :
    let snapshot : Snapshot := { id := { text := "7" }, lockVersion := 3, typeHref := "task" }
    let events : List Event :=
      [.subscribeCommits, .subscribeCommits, .subscribeCommits, .unsubscribeCommits 2,
        .move (.act (.changeFor snapshot none) trivial),
        .move (.act (.setValue 1 "subject" (.text "Mine")) trivial), .move (.start 1)]
    let before := (course quietDesk events).desk
    let standing : DraftStanding := { inFlight := true, isEmpty := false }
    ∃ job commit held settled after, before.finish job = (after, .ok commit) ∧
      before.Publishes 1 quietDesk.hooks commit held settled after ∧
      settled.reports = [.commit 1 commit (some standing) (some 4), .commit 3 commit (some standing) (some 4)] ∧
      (∃ ran, after.reports = settled.reports ++ ran ∧
        ran.map Delivery.probed? = [some ("first", commit.id), some ("second", commit.id)]) := by
  intro snapshot events before standing
  have hsaved : ((course quietDesk events).saves[0]?.map fun job =>
      (job.handle, job.isPending, (before.finish job).2.toOption.map fun commit =>
        (commit.id, commit.workPackage.lockVersion))) = some (1, true, some (snapshot.id, 4)) := by
    decide +kernel
  have hbefore : before.reports = [] ∧ before.commitSubscriptions = [1, 3] ∧
      before.standing? snapshot.id = some standing := by decide +kernel
  obtain ⟨job, hjob, hresult⟩ := Option.map_eq_some_iff.1 hsaved
  obtain ⟨hhandle, hpending, hcommit⟩ : job.handle = 1 ∧ job.isPending = true ∧ _ := by
    simpa only [Prod.mk.injEq] using hresult
  rcases hf : before.finish job with ⟨after, error | commit⟩ <;> rw [hf] at hcommit
  · cases hcommit
  · obtain ⟨hid, hversion⟩ : commit.id = snapshot.id ∧ commit.workPackage.lockVersion = 4 := by
      simpa [Except.toOption] using hcommit
    obtain ⟨-, -, ⟨held, settled, hpublishes⟩, -⟩ :=
      publishes_once_in_order opens_quietDesk events hjob hpending hf
    rw [hhandle] at hpublishes
    obtain ⟨hnone, hsubscribers, hstanding⟩ := hbefore
    refine ⟨job, commit, held, settled, after, hf, hpublishes, ?_, hpublishes.ran⟩
    have htold := hpublishes.told
    rw [hid, hversion, hnone, hsubscribers, hstanding] at htold
    exact htold

end BusyDesk

end Draftboard
