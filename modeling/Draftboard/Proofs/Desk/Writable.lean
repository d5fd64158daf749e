import Draftboard.Proofs.Validation
import Draftboard.Proofs.Desk.Works
import Draftboard.Proofs.Desk.Tallies
/-!
# Only what the schema allows is submitted

Whichever gesture sends an update, the schema allows each modification that goes with it. A change-set
says of the same attributes that they can be edited, unless its work package is read-only: that is asked
by the controls, and not when a payload is built.
-/

namespace Draftboard

namespace Changeset

variable {c : Changeset} {schema : Schema} {p : Payload}

theorem isWritable_of_buildPayload (h : c.buildPayload schema = .ok p) {name : String}
    (modified : name ∈ c.changes) : schema.isWritable name = true := by
  rw [← Std.ExtTreeMap.isSome_getElem?_iff_mem, Option.isSome_iff_exists] at modified
  obtain ⟨value, hvalue⟩ := modified
  obtain ⟨field, hfield, hwritable, -⟩ :=
    ((buildPayload_isOk_iff c schema).1 ⟨p, h⟩).changes name value hvalue
  simp [Schema.isWritable, hfield, hwritable]

/-- A modification that is submitted is of an attribute that the change-set lets edit, but for the flag
of the work package. -/
theorem isWritable_eq_of_buildPayload (h : c.buildPayload schema = .ok p) {name : String}
    (modified : name ∈ c.changes) : c.isWritable name schema = !c.pristine.readonly := by
  rw [isWritable, isWritable_of_buildPayload h modified, Bool.and_true]

end Changeset

namespace Desk

/-! ## Saves that come to their update -/

/-- A save that comes to its update: the payload that it sends, and the schema that it goes by. -/
structure Submission (d : Desk) (h : Handle) (schema : Schema) (payload : Payload) : Prop where
  built : (d.changeset h).buildPayload schema = .ok payload
  sent : (d.saveUpTo .update h).2.stage =
    .submission (d.changeset h).pristine payload (d.changeset h).changes

section Held

variable {d : Desk} {h : Handle} {hooks : List Hook} {pristine : Snapshot} {payload : Payload}
variable {changes : Attributes}

theorem stage_of_submission (fuel : Nat) :
    (advanceUntil (·.nextRequest? = some .update) fuel d
      { handle := h, hooks, stage := .submission pristine payload changes }).2.stage =
      .submission pristine payload changes := by
  cases fuel with
  | zero => rfl
  | succ fuel => rfl

theorem stage_of_composed {schema : Schema} (composed : d.compose h schema = .ok (payload, changes))
    (fuel : Nat) :
    (advanceUntil (·.nextRequest? = some .update) (fuel + 1) d
      { handle := h, hooks, stage := .schema pristine (.has schema) }).2.stage =
      .submission pristine payload changes := by
  have hstep : d.advance { handle := h, hooks, stage := .schema pristine (.has schema) } =
      (d, { handle := h, hooks, stage := .submission pristine payload changes }) := by
    simp only [advance, composeJob, composed]
  rw [advanceUntil, if_neg (by simp [SaveJob.nextRequest?]), hstep]
  exact stage_of_submission fuel

end Held

theorem submission_of_asked {d ready : Desk} {h : Handle} {schema : Schema} {payload : Payload}
    (free : (d.changeset h).inFlight = false)
    (asked : (d.setInFlight h true).ensureSchema (d.changeset h).pristine.typeHref = (ready, .ok schema))
    (built : (d.changeset h).buildPayload schema = .ok payload) : d.Submission h schema payload := by
  have hcompose := compose_ensureSchema d h (d.changeset h).pristine.typeHref schema
  rw [asked, built] at hcompose
  refine ⟨built, ?_⟩
  unfold saveUpTo
  rw [startSave_of_free free]
  unfold ensureSchema at asked
  dsimp only [SaveJob.stepsLeft]
  rw [advanceUntil, if_neg (by simp [SaveJob.nextRequest?])]
  cases hs : (d.setInFlight h true).schemas[(d.changeset h).pristine.typeHref]? with
  | some cached =>
    rw [hs] at asked
    cases asked
    simp only [advance, seekJob, stepSchema, hs]
    exact stage_of_composed hcompose _
  | none =>
    rw [hs] at asked
    simp only [advance, seekJob, stepSchema, hs]
    rw [advanceUntil, if_neg (by simp [SaveJob.nextRequest?])]
    unfold fetchSchema at asked
    rcases hr : (d.setInFlight h true).request (·.fetchSchema (d.changeset h).pristine.typeHref) with
      ⟨after, error | sent⟩ <;> rw [hr] at asked <;> cases asked
    simp only [advance, seekJob, stepSchema, hr]
    rw [advanceUntil, if_neg (by simp [SaveJob.nextRequest?])]
    exact stage_of_composed hcompose _

/-! ## Gestures -/

/-- The ways to send an update. -/
inductive Gesture where
  | save (h : Handle)
  | drop (g : Grouping) (x : Snapshot) (identifier : String)
  | drag (r : Row) (event : Row.Event)

def gesture (d : Desk) : Gesture → Desk
  | .save h => (d.save h).1
  | .drop g x identifier => (g.drop d x identifier).1
  | .drag r event => (r.on d event).1

/-- No update is sent, or one by a save that starts with the server as it is; after that save the server
is asked for changed rows at most. -/
inductive Sends (d d' : Desk) : Prop
  | nothing (updates : d'.server.calls.get .update = d.server.calls.get .update)
  | once {ready : Desk} {h : Handle} {schema : Schema} {payload : Payload}
      (start : ready.server = d.server) (submission : ready.Submission h schema payload)
      (rest : ∃ calls, d'.server = (ready.save h).1.server.run calls ∧
        ∀ call ∈ calls, ∃ ids since, call = .updatedSince ids since)

theorem sends_save (d : Desk) (h : Handle) : d.Sends (d.save h).1 := by
  have hends := save_ends d h
  have hlast : ∀ {schema payload}, d.Submission h schema payload → d.Sends (d.save h).1 :=
    fun submission => .once rfl submission ⟨[], rfl, by simp⟩
  rcases hs : d.save h with ⟨after, result⟩
  rw [hs] at hends hlast
  dsimp only at hends hlast ⊢
  cases hends with
  | busy => exact .nothing rfl
  | noSchema free asked =>
    have hasked := (submits_of_asked asked).updates
    exact .nothing hasked
  | invalid free asked =>
    have hasked := (submits_of_asked asked).updates
    exact .nothing hasked
  | refused free asked built => exact hlast (submission_of_asked free asked built)
  | done free asked built => exact hlast (submission_of_asked free asked built)

section Sends

variable {d middle d' : Desk}

theorem Sends.of_server_eq (sends : middle.Sends d') (server : middle.server = d.server) : d.Sends d' := by
  cases sends with
  | nothing updates => exact .nothing (server ▸ updates)
  | once start submission rest => exact .once (start.trans server) submission rest

theorem Sends.andThen (sends : d.Sends middle) (server : d'.server = middle.server) : d.Sends d' := by
  cases sends with
  | nothing updates => exact .nothing (server.symm ▸ updates)
  | once start submission rest =>
    obtain ⟨calls, hcalls, looks⟩ := rest
    exact .once start submission ⟨calls, server.trans hcalls, looks⟩

theorem Sends.look (sends : d.Sends middle) {ids : List PackageId} {since : Instant}
    (server : d'.server = (middle.server.updatedSince ids since).2) : d.Sends d' := by
  cases sends with
  | nothing updates =>
    refine .nothing (Eq.trans ?_ updates)
    rw [server]
    exact (Server.makes_updatedSince middle.server ids since).calls .update
  | once start submission rest =>
    obtain ⟨calls, hcalls, looks⟩ := rest
    refine .once start submission ⟨calls ++ [.updatedSince ids since], ?_, fun call hcall => ?_⟩
    · rw [server, Server.run_append, ← hcalls]
      rfl
    · rcases List.mem_append.1 hcall with hcall | hcall
      · exact looks call hcall
      · exact ⟨ids, since, List.mem_singleton.1 hcall⟩

end Sends

end Desk

theorem Grouping.sends_drop (g : Grouping) (d : Desk) (x : Snapshot) (identifier : String) :
    d.Sends (g.drop d x identifier).1 := by
  unfold drop
  split
  · exact .nothing rfl
  · rename_i name _
    have hedited := (changes_write d x name (g.valueFor identifier)).server_eq (by decide)
    have hsave := (Desk.sends_save ((d.changeFor x none).1.setValue (d.changeFor x none).2 name
      (g.valueFor identifier)) (d.changeFor x none).2).of_server_eq hedited
    dsimp only
    rcases hs : Desk.save _ (d.changeFor x none).2 with ⟨after, error | commit⟩ <;>
      rw [hs] at hsave <;> exact hsave.andThen rfl

namespace Row

open Timeline

variable (r : Row) (d : Desk)

theorem sends_save : d.Sends (r.save d).1 := by
  have hsave := Desk.sends_save d.readClock.1 r.handle
  unfold save
  rcases hs : d.readClock.1.save r.handle with ⟨after, error | commit⟩ <;> rw [hs] at hsave <;>
    simp only [hs]
  · exact (hsave.of_server_eq (d := d) rfl).andThen rfl
  · have hnotified : d.Sends (if r.notifiesSuccess then after.notify (.saved commit.id) else after) := by
      refine (hsave.of_server_eq (d := d) rfl).andThen ?_
      split <;> rfl
    exact hnotified.look (Desk.server_refreshRendered r _ commit _)

theorem sends_deactivate (cancelled : Bool) : d.Sends (r.deactivate d cancelled).1 := by
  rw [deactivate_eq]
  have hland : ∀ {after : Desk} (outcome : Outcome), d.Sends after → d.Sends (r.land after outcome).1 :=
    fun _ sends => sends.andThen ((Desk.changes_reset ..).server_eq (by decide))
  split
  · exact hland _ (.nothing rfl)
  · split
    · exact hland _ (.nothing rfl)
    · exact hland _ (sends_save r d)

theorem sends_apply (intent : Intent) : d.Sends (r.apply d intent).1 := by
  cases intent with
  | preview direction days day =>
    have hserver := (changes_preview r d direction days day).server_eq (by decide)
    exact .nothing (congrArg (·.calls.get .update) hserver)
  | commit => exact sends_deactivate r d false
  | cancel => exact sends_deactivate r d true

theorem sends_applyAll {intents : List Intent} (few : Few intents) :
    d.Sends (r.applyAll d intents).1 := by
  cases few with
  | none => exact .nothing rfl
  | one intent => exact sends_apply r d intent
  | shown direction days day intent =>
    have happly := sends_apply r (r.preview d direction days day) intent
    exact happly.of_server_eq ((changes_preview r d direction days day).server_eq (by decide))

theorem sends_on (event : Event) : d.Sends (r.on d event).1 := by
  obtain ⟨acting, begun, intents, heq, hfew, -, hbegun⟩ := exists_applyAll_on r d event
  have happly := sends_applyAll acting begun hfew
  rw [heq]
  rcases hbegun with rfl | rfl
  · exact happly
  · exact happly.of_server_eq ((Desk.changes_changeFor ..).server_eq (by decide))

end Row

namespace Desk

/-- What is submitted is a modification that the schema allows or a value of the form, and of the
modifications the change-set itself says that they can be made, unless the work package is read-only.
Every update that is sent by a save, a drop into a group or a drag on a row is sent so. -/
theorem submits_what_schema_allows (c : Changeset) (schema : Schema) (d : Desk) (gesture : Gesture) :
    (∀ p : Payload, c.buildPayload schema = .ok p →
      (∀ name ∈ c.changes, schema.isWritable name = true ∧
        (c.isWritable name schema = true ↔ c.pristine.readonly = false)) ∧
      ∀ name value, p.get? name = some value → name ∉ c.changes →
        ∃ form, c.form = some form ∧ form.payload[name]? = some value) ∧
    d.Sends (d.gesture gesture) := by
  refine ⟨fun p h => ⟨fun name modified => ⟨c.isWritable_of_buildPayload h modified, ?_⟩,
    fun name value submitted unmodified => ?_⟩, ?_⟩
  · rw [Changeset.isWritable_eq_of_buildPayload h modified, Bool.not_eq_true']
  · rw [Changeset.get?_of_buildPayload h, Changeset.submitted?,
      Std.ExtTreeMap.getElem?_eq_none unmodified, Option.none_or] at submitted
    exact Option.bind_eq_some_iff.1 submitted
  · cases gesture with
    | save h => exact sends_save d h
    | drop g x identifier => exact g.sends_drop d x identifier
    | drag r event => exact r.sends_on d event

/-! ## A drop of a read-only work package -/

def assignable : Schema :=
  { typeHref := "task"
    fields := (∅ : TextMap FieldSchema).insert "assignee" { writable := true, kind := .link } }

def byAssignee : Grouping :=
  { name := some "assignee"
    groups := [{ identifier := "mine", valueLinks := [{ href := "/api/v3/users/1" }] }] }

def task (readonly : Bool) : Snapshot := { id := { text := "7" }, typeHref := "task", readonly }

def assigned (x : Snapshot) : Changeset :=
  ({ pristine := x } : Changeset).setValue "assignee" (byAssignee.valueFor "mine")

def deskWith (x : Snapshot) : Desk := { server := (({} : Server).insert x).insertSchema assignable }

theorem submits_what_schema_allows_dropped :
    (∃ p, (assigned (task false)).buildPayload assignable = .ok p ∧
      (assigned (task false)).isWritable "assignee" assignable = true) ∧
    ∃ (ready : Desk) (h : Handle) (schema : Schema) (payload : Payload),
      ready.server = (deskWith (task false)).server ∧ ready.Submission h schema payload ∧
        ∀ name ∈ (ready.changeset h).changes, schema.isWritable name = true := by
  have hallowed := submits_what_schema_allows (assigned (task false)) assignable
    (deskWith (task false)) (.drop byAssignee (task false) "mine")
  constructor
  · have hok : ((assigned (task false)).buildPayload assignable).isOk = true := by decide +kernel
    rcases hb : (assigned (task false)).buildPayload assignable with errors | p
    · rw [hb] at hok
      cases hok
    · exact ⟨p, rfl, ((hallowed.1 p hb).1 "assignee" (by decide +kernel)).2.2 rfl⟩
  · have hupdates : ((deskWith (task false)).gesture (.drop byAssignee (task false) "mine")).server.calls.get
        .update ≠ (deskWith (task false)).server.calls.get .update := by decide +kernel
    cases hallowed.2 with
    | nothing updates => exact absurd updates hupdates
    | @once ready h schema payload start submission =>
      have hsent := submits_what_schema_allows (ready.changeset h) schema ready (.save h)
      exact ⟨ready, h, schema, payload, start, submission, fun name modified =>
        ((hsent.1 payload submission.built).1 name modified).1⟩

/-- A read-only work package is submitted all the same: its change-set says that the assignee cannot be
edited, and builds a payload with it, which the drop saves. -/
theorem readonly_is_submitted :
    ((assigned (task true)).buildPayload assignable).isOk = true ∧
      "assignee" ∈ (assigned (task true)).changes ∧
      (assigned (task true)).isWritable "assignee" assignable = false ∧
      (byAssignee.drop (deskWith (task true)) (task true) "mine").2.map (·.changes) =
        some (assigned (task true)).changes := by
  decide +kernel

end Desk

end Draftboard
