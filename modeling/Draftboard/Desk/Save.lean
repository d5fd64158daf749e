import Draftboard.Desk.Editing
/-!
# Saving

A save goes through stages. It is accepted, which raises the flag of the change-set; it looks for
the schema and asks for it if it is not there; it builds its payload and submits it; and when the
server has taken it, the saved snapshot goes into the cache, the commit is published, the change-set
is given up, and the hooks run. A save that fails lowers the flag and changes nothing else.

`SaveJob` is a save between two steps, and `advance` takes the next one. Others may go on in
between; a save that is left alone takes all its steps at once.
-/

namespace Draftboard

namespace Desk

/-! ## Accepting and composing -/

/-- Accepts a save unless one is under way, and gives the snapshot it is based on. -/
def acceptSave (d : Desk) (h : Handle) : Desk × Except EditError Snapshot :=
  let c := d.changeset h
  if c.inFlight then (d, .error (.saveInFlight c.id)) else (d.setInFlight h true, .ok c.pristine)

def failSave (d : Desk) (h : Handle) (error : EditError) : Desk × Except EditError Commit :=
  (d.setInFlight h false, .error error)

/-- The payload of a change-set as it is now, with the modifications it stands for. -/
def compose (d : Desk) (h : Handle) (schema : Schema) : Except EditError (Payload × Attributes) :=
  match (d.changeset h).buildPayload schema with
  | .ok payload => .ok (payload, (d.changeset h).changes)
  | .error errors => .error (.validation errors)

/-! ## Submitting -/

/-- Brings a commit to its subscribers, in the order they subscribed. -/
def publishCommit (d : Desk) (commit : Commit) : Desk :=
  let standing := (d.registered? commit.id).map fun h =>
    ({ inFlight := (d.changeset h).inFlight, isEmpty := (d.changeset h).isEmpty } : DraftStanding)
  let cached := d.cachedVersion commit.id
  { d with deliveries :=
    d.deliveries ++ d.commitSubscriptions.map fun n => .commit n commit standing cached }

/-- Applies what the server saved: cache, commit subscribers, and the end of the change-set. -/
def settle (d : Desk) (h : Handle) (commit : Commit) : Desk :=
  (((d.putPackage commit.workPackage).publishCommit commit).setInFlight h false).reset h

/-- Submits a payload. Attributes that the answer leaves out are taken from the pristine snapshot. -/
def submit (d : Desk) (h : Handle) (pristine : Snapshot) (payload : Payload) (changes : Attributes) :
    Desk × Except EditError Commit :=
  let (d, now) := d.readClock
  match d.request (·.update now pristine payload) with
  | (d, .error error) => d.failSave h (.api error)
  | (d, .ok saved) =>
    let commit : Commit :=
      { id := saved.id, wasNew := pristine.isNew, workPackage := saved.retainFrom pristine, changes }
    (d.settle h commit, .ok commit)

/-! ## Hooks -/

def refetch (d : Desk) (parent : PackageId) : Desk × Bool :=
  match d.request (·.fetch parent) with
  | (d, .ok fresh) => (d.putPackage fresh, true)
  | (d, .error _) => (d, false)

/-- Publishes a commit on the event bus. A new subject is published too. -/
def publishEvents (d : Desk) (commit : Commit) : Desk :=
  let d := d.publishEvent (if commit.wasNew then .created commit.id else .updated commit.id)
  match commit.changes[Attribute.subject]?, commit.workPackage.subject? with
  | some _, some subject => d.publishEvent (.renamed commit.id subject)
  | _, _ => d

def writeCache (d : Desk) : CacheWrite → Desk
  | .put snapshot => d.putPackage snapshot
  | .drop id => d.dropPackage id

def runHook (d : Desk) (commit : Commit) : Hook → Desk × Bool
  | .invalidateActivity => ({ d with activity := d.activity.erase commit.id }, true)
  | .refreshParent =>
    match commit.workPackage.parentId? with
    | none => (d, true)
    | some parent => (d.dropPackage parent).refetch parent
  | .publishEvents => (d.publishEvents commit, true)
  | .probe name fails => (d.deliver (.probe name commit.id (d.cachedVersion commit.id)), !fails)
  | .custom writes fails => ((writes commit d.cache.entries).foldl writeCache d, !fails)

/-- Runs hooks in order; one that fails does not stop the next. -/
def runHooks (d : Desk) (commit : Commit) (hooks : List Hook) : Desk :=
  hooks.foldl (fun d hook => (d.runHook commit hook).1) d

end Desk

/-! ## Saves under way -/

inductive SaveStage where
  /-- Accepted, and on the way to its schema. -/
  | schema (pristine : Snapshot) (stage : SchemaStage)
  | submission (pristine : Snapshot) (payload : Payload) (changes : Attributes)
  /-- The server has saved, and hooks are left to run. -/
  | followUp (commit : Commit)
  /-- A hook has dropped the parent from the cache and has to fetch it. -/
  | refetch (commit : Commit) (parent : PackageId)
  | finished (result : Except EditError Commit)

/-- A save of one change-set, with the hooks that have not run yet. -/
structure SaveJob where
  handle : Handle
  hooks : List Hook
  stage : SaveStage

namespace SaveJob

/-- The request that a save makes next, if it makes one at its next step. -/
def nextRequest? (job : SaveJob) : Option Operation :=
  match job.stage with
  | .schema _ .asks => some .schema
  | .submission .. => some .update
  | .refetch .. => some .fetch
  | .schema _ _ | .followUp _ | .finished _ => none

def result? (job : SaveJob) : Option (Except EditError Commit) :=
  match job.stage with
  | .finished result => some result
  | _ => none

/-- A bound on the steps that a save has left. -/
def stepsLeft (job : SaveJob) : Nat :=
  match job.stage with
  | .schema _ .looks => 2 * job.hooks.length + 6
  | .schema _ .asks => 2 * job.hooks.length + 5
  | .schema _ (.inserts _) => 2 * job.hooks.length + 4
  | .schema _ (.has _) => 2 * job.hooks.length + 3
  | .submission .. => 2 * job.hooks.length + 2
  | .refetch .. => 2 * job.hooks.length + 2
  | .followUp _ => 2 * job.hooks.length + 1
  | .finished _ => 0

theorem stepsLeft_eq_zero {job : SaveJob} : job.stepsLeft = 0 ↔ job.result?.isSome = true := by
  obtain ⟨handle, hooks, stage⟩ := job
  cases stage with
  | schema pristine stage => cases stage <;> simp [stepsLeft, result?]
  | _ => simp [stepsLeft, result?]

end SaveJob

namespace Desk

/-! ## Steps -/

/-- Accepts a save or refuses it. -/
def startSave (d : Desk) (h : Handle) : Desk × SaveJob :=
  match d.acceptSave h with
  | (d, .error error) => (d, { handle := h, hooks := d.hooks, stage := .finished (.error error) })
  | (d, .ok pristine) => (d, { handle := h, hooks := d.hooks, stage := .schema pristine .looks })

/-- Builds the payload, after which it can be submitted; or ends the save. -/
def composeJob (d : Desk) (job : SaveJob) (pristine : Snapshot) (schema : Schema) : Desk × SaveJob :=
  match d.compose job.handle schema with
  | .ok (payload, changes) => (d, { job with stage := .submission pristine payload changes })
  | .error error =>
    let (d, result) := d.failSave job.handle error
    (d, { job with stage := .finished result })

/-- Goes on to the schema, or ends the save. -/
def seekJob (d : Desk) (job : SaveJob) (pristine : Snapshot) (stage : SchemaStage) : Desk × SaveJob :=
  match d.stepSchema pristine.typeHref stage with
  | (d, .ok next) => (d, { job with stage := .schema pristine next })
  | (d, .error error) =>
    let (d, result) := d.failSave job.handle (.api error)
    (d, { job with stage := .finished result })

def advance (d : Desk) (job : SaveJob) : Desk × SaveJob :=
  match job.stage with
  | .schema pristine (.has schema) => d.composeJob job pristine schema
  | .schema pristine stage => d.seekJob job pristine stage
  | .submission pristine payload changes =>
    match d.submit job.handle pristine payload changes with
    | (d, .ok commit) => (d, { job with stage := .followUp commit })
    | (d, .error error) => (d, { job with stage := .finished (.error error) })
  | .followUp commit =>
    match job.hooks with
    | [] => (d, { job with stage := .finished (.ok commit) })
    | .refreshParent :: rest =>
      match commit.workPackage.parentId? with
      | some parent => (d.dropPackage parent, { job with hooks := rest, stage := .refetch commit parent })
      | none => (d, { job with hooks := rest })
    | hook :: rest => ((d.runHook commit hook).1, { job with hooks := rest })
  | .refetch commit parent => ((d.refetch parent).1, { job with stage := .followUp commit })
  | .finished _ => (d, job)

/-- Takes so many steps, or fewer if the save is to be held on the way. -/
def advanceUntil (held : SaveJob → Bool) : Nat → Desk → SaveJob → Desk × SaveJob
  | 0, d, job => (d, job)
  | fuel + 1, d, job =>
    if held job then (d, job)
    else
      let (d, job) := d.advance job
      advanceUntil held fuel d job

def advanceAll : Nat → Desk → SaveJob → Desk × SaveJob := advanceUntil fun _ => false

theorem advanceAll_succ (fuel : Nat) (d : Desk) (job : SaveJob) :
    advanceAll (fuel + 1) d job = advanceAll fuel (d.advance job).1 (d.advance job).2 := rfl

/-! ## Every save comes to an end -/

theorem stepsLeft_composeJob_lt (d : Desk) (job : SaveJob) (pristine : Snapshot) (schema : Schema) :
    (d.composeJob job pristine schema).2.stepsLeft < 2 * job.hooks.length + 3 := by
  cases hc : d.compose job.handle schema <;> simp [composeJob, hc, SaveJob.stepsLeft]

/-- Every step brings a save nearer to its end. -/
theorem stepsLeft_advance_lt (d : Desk) (job : SaveJob) (h : job.result? = none) :
    (d.advance job).2.stepsLeft < job.stepsLeft := by
  obtain ⟨handle, hooks, stage⟩ := job
  cases stage with
  | schema pristine stage =>
    cases stage with
    | looks =>
      cases hs : d.schemas[pristine.typeHref]? <;>
        simp [advance, seekJob, stepSchema, hs, SaveJob.stepsLeft]
    | asks =>
      rcases hr : d.request (·.fetchSchema pristine.typeHref) with ⟨after, error | schema⟩ <;>
        simp [advance, seekJob, stepSchema, hr, SaveJob.stepsLeft]
    | inserts schema => simp [advance, seekJob, stepSchema, SaveJob.stepsLeft]
    | has schema => exact stepsLeft_composeJob_lt ..
  | submission pristine payload changes =>
    rcases hs : d.submit handle pristine payload changes with ⟨after, error | commit⟩ <;>
      simp [advance, hs, SaveJob.stepsLeft]
  | followUp commit =>
    match hooks with
    | [] => simp [advance, SaveJob.stepsLeft]
    | .invalidateActivity :: rest => simp [advance, SaveJob.stepsLeft]
    | .publishEvents :: rest => simp [advance, SaveJob.stepsLeft]
    | .probe name fails :: rest => simp [advance, SaveJob.stepsLeft]
    | .custom writes fails :: rest => simp [advance, SaveJob.stepsLeft]
    | .refreshParent :: rest =>
      cases hp : commit.workPackage.parentId? with
      | none =>
        simp only [advance, hp, SaveJob.stepsLeft, List.length_cons]
        omega
      | some parent =>
        simp only [advance, hp, SaveJob.stepsLeft, List.length_cons]
        omega
  | refetch commit parent => simp [advance, SaveJob.stepsLeft]
  | finished result => simp [SaveJob.result?] at h

theorem advance_of_ended (d : Desk) {job : SaveJob} (ended : job.result?.isSome = true) :
    d.advance job = (d, job) := by
  obtain ⟨handle, hooks, stage⟩ := job
  cases stage with
  | finished result => rfl
  | schema | submission | followUp | refetch => cases ended

theorem advanceAll_of_ended (fuel : Nat) (d : Desk) {job : SaveJob} (ended : job.result?.isSome = true) :
    advanceAll fuel d job = (d, job) := by
  induction fuel with
  | zero => rfl
  | succ fuel ih => rw [advanceAll_succ, advance_of_ended d ended, ih]

/-- As many steps as there are left lead to the end. -/
theorem isSome_result?_advanceAll {fuel : Nat} (d : Desk) {job : SaveJob} (enough : job.stepsLeft ≤ fuel) :
    (advanceAll fuel d job).2.result?.isSome = true := by
  induction fuel generalizing d job with
  | zero => exact SaveJob.stepsLeft_eq_zero.1 (Nat.le_zero.1 enough)
  | succ fuel ih =>
    cases hr : job.result? with
    | some result =>
      rw [advanceAll_of_ended _ d (by simp [hr])]
      simp [hr]
    | none =>
      rw [advanceAll_succ]
      exact ih _ (Nat.le_of_lt_succ (Nat.lt_of_lt_of_le (stepsLeft_advance_lt d job hr) enough))

/-- Steps beyond the end change nothing. -/
theorem advanceAll_eq {fuel more : Nat} (d : Desk) {job : SaveJob} (enough : job.stepsLeft ≤ fuel)
    (enough' : job.stepsLeft ≤ more) : advanceAll fuel d job = advanceAll more d job := by
  induction fuel generalizing more d job with
  | zero =>
    have ended := SaveJob.stepsLeft_eq_zero.1 (Nat.le_zero.1 enough)
    rw [advanceAll_of_ended _ d ended, advanceAll_of_ended _ d ended]
  | succ fuel ih =>
    cases hr : job.result? with
    | some result =>
      have ended : job.result?.isSome = true := by simp [hr]
      rw [advanceAll_of_ended _ d ended, advanceAll_of_ended _ d ended]
    | none =>
      have hlt := stepsLeft_advance_lt d job hr
      obtain ⟨more, rfl⟩ : ∃ n, more = n + 1 := ⟨more - 1, by omega⟩
      rw [advanceAll_succ, advanceAll_succ]
      exact ih _ (by omega) (by omega)

/-! ## Whole saves -/

/-- Takes all the steps that are left. -/
def finish (d : Desk) (job : SaveJob) : Desk × Except EditError Commit :=
  let ended := advanceAll job.stepsLeft d job
  (ended.1, ended.2.result?.get (isSome_result?_advanceAll d (Nat.le_refl _)))

def save (d : Desk) (h : Handle) : Desk × Except EditError Commit :=
  let (d, job) := d.startSave h
  d.finish job

/-- Starts a save and holds it before its first request of a kind. -/
def saveUpTo (d : Desk) (stop : Operation) (h : Handle) : Desk × SaveJob :=
  let (d, job) := d.startSave h
  advanceUntil (·.nextRequest? = some stop) job.stepsLeft d job

/-! ## Where a save ends -/

theorem finish_eq {fuel : Nat} {d after : Desk} {job last : SaveJob} {result : Except EditError Commit}
    (enough : job.stepsLeft ≤ fuel) (steps : advanceAll fuel d job = (after, last))
    (ended : last.result? = some result) : d.finish job = (after, result) := by
  rw [← advanceAll_eq d (Nat.le_refl _) enough] at steps
  unfold finish
  dsimp only
  congr 1
  · rw [steps]
  · refine Option.get_of_eq_some _ ?_
    rw [steps, ended]

/-- A step of a save does not change where the save ends. -/
theorem finish_advance (d : Desk) (job : SaveJob) :
    (d.advance job).1.finish (d.advance job).2 = d.finish job := by
  cases hr : job.result? with
  | some result => rw [advance_of_ended d (by simp [hr])]
  | none =>
    have hlt := stepsLeft_advance_lt d job hr
    have hends := isSome_result?_advanceAll (d.advance job).1 (Nat.le_refl (d.advance job).2.stepsLeft)
    obtain ⟨result, hresult⟩ := Option.isSome_iff_exists.1 hends
    obtain ⟨n, hn⟩ : ∃ n, job.stepsLeft = n + 1 := ⟨job.stepsLeft - 1, by omega⟩
    have hsteps : advanceAll (n + 1) d job =
        advanceAll (d.advance job).2.stepsLeft (d.advance job).1 (d.advance job).2 := by
      rw [advanceAll_succ]
      exact advanceAll_eq _ (by omega) (Nat.le_refl _)
    rw [finish_eq (Nat.le_refl _) rfl hresult]
    exact (finish_eq (Nat.le_of_eq hn) hsteps hresult).symm

section Finish

variable (d : Desk) (h : Handle) (hooks : List Hook) (pristine : Snapshot)

theorem finish_finished (result : Except EditError Commit) :
    d.finish { handle := h, hooks, stage := .finished result } = (d, result) := rfl

theorem finish_followUp (commit : Commit) :
    d.finish { handle := h, hooks, stage := .followUp commit } = (d.runHooks commit hooks, .ok commit) := by
  induction hooks generalizing d with
  | nil => rfl
  | cons hook rest ih =>
    rw [← finish_advance]
    cases hook with
    | refreshParent =>
      cases hp : commit.workPackage.parentId? with
      | none =>
        simp only [advance, hp, ih]
        simp [runHooks, runHook, hp]
      | some parent =>
        simp only [advance, hp]
        rw [← finish_advance]
        simp only [advance, ih]
        simp [runHooks, runHook, hp]
    | invalidateActivity | publishEvents | probe | custom => exact ih _

theorem finish_submission (payload : Payload) (changes : Attributes) :
    d.finish { handle := h, hooks, stage := .submission pristine payload changes } =
      match d.submit h pristine payload changes with
      | (d, .ok commit) => (d.runHooks commit hooks, .ok commit)
      | (d, .error error) => (d, .error error) := by
  rw [← finish_advance]
  rcases hs : d.submit h pristine payload changes with ⟨after, error | commit⟩ <;> simp only [advance, hs]
  · rfl
  · exact finish_followUp ..

theorem finish_has (schema : Schema) :
    d.finish { handle := h, hooks, stage := .schema pristine (.has schema) } =
      match d.compose h schema with
      | .ok (payload, changes) =>
        d.finish { handle := h, hooks, stage := .submission pristine payload changes }
      | .error error => d.failSave h error := by
  rw [← finish_advance]
  cases hc : d.compose h schema with
  | ok composed => simp only [advance, composeJob, hc]
  | error error =>
    simp only [advance, composeJob, hc]
    exact finish_finished ..

theorem finish_asks :
    d.finish { handle := h, hooks, stage := .schema pristine .asks } =
      match d.fetchSchema pristine.typeHref with
      | (d, .ok schema) => d.finish { handle := h, hooks, stage := .schema pristine (.has schema) }
      | (d, .error error) => d.failSave h (.api error) := by
  rw [← finish_advance]
  unfold fetchSchema
  rcases hr : d.request (·.fetchSchema pristine.typeHref) with ⟨after, error | schema⟩ <;>
    simp only [advance, seekJob, stepSchema, hr]
  · exact finish_finished ..
  · rw [← finish_advance]
    rfl

/-- A save that is left alone gets its schema as any other call does. -/
theorem finish_looks :
    d.finish { handle := h, hooks, stage := .schema pristine .looks } =
      match d.ensureSchema pristine.typeHref with
      | (d, .ok schema) => d.finish { handle := h, hooks, stage := .schema pristine (.has schema) }
      | (d, .error error) => d.failSave h (.api error) := by
  rw [← finish_advance]
  unfold ensureSchema
  cases hs : d.schemas[pristine.typeHref]? with
  | some schema => simp only [advance, seekJob, stepSchema, hs]
  | none =>
    simp only [advance, seekJob, stepSchema, hs]
    exact finish_asks ..

end Finish

end Desk

end Draftboard
