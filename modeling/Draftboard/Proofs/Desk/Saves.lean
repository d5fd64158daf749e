import Draftboard.Proofs.Payload
import Draftboard.Proofs.Desk.Frames
/-!
# How a save ends

A save ends in one of five ways, and each is told here with all that it does. What is said of saves
elsewhere goes by these five cases.
-/

namespace Draftboard

def Changeset.commit (c : Changeset) (saved : Snapshot) : Commit :=
  { id := saved.id, wasNew := c.pristine.isNew, workPackage := saved.retainFrom c.pristine,
    changes := c.changes }

namespace Desk

/-! ## The flag -/

theorem exists_changeset_setInFlight (d : Desk) (h : Handle) (raised : Bool) :
    ∃ inFlight, (d.setInFlight h raised).changeset h = { d.changeset h with inFlight } := by
  rcases changeset_modifyQuietly_self d h (fun c => { c with inFlight := raised }) with hc | hc
  · exact ⟨raised, hc⟩
  · exact ⟨(d.changeset h).inFlight, hc⟩

/-! ## Starting -/

theorem startSave_of_inFlight {d : Desk} {h : Handle} (raised : (d.changeset h).inFlight = true) :
    d.startSave h =
      (d, { handle := h, hooks := d.hooks,
            stage := .finished (.error (.saveInFlight (d.changeset h).id)) }) := by
  simp [startSave, acceptSave, raised]

theorem startSave_of_free {d : Desk} {h : Handle} (free : (d.changeset h).inFlight = false) :
    d.startSave h =
      (d.setInFlight h true,
        { handle := h, hooks := d.hooks, stage := .schema (d.changeset h).pristine .looks }) := by
  simp only [startSave, acceptSave, free, Bool.false_eq_true, if_false]
  rfl

/-! ## Fetching -/

theorem exists_ensureSchema (d : Desk) (typeHref : String) :
    ∃ server schemas, (d.ensureSchema typeHref).1 = { d with server, schemas } ∧
      (server = d.server ∨ server = d.server.perform (.fetchSchema typeHref)) := by
  unfold ensureSchema
  split
  · exact ⟨d.server, d.schemas, rfl, Or.inl rfl⟩
  · unfold fetchSchema request
    dsimp only
    rcases hf : d.server.fetchSchema typeHref with ⟨error | schema, after⟩
    · exact ⟨after, d.schemas, rfl, Or.inr (congrArg Prod.snd hf).symm⟩
    · exact ⟨after, _, rfl, Or.inr (congrArg Prod.snd hf).symm⟩

section Asked

variable {d ready : Desk} {h : Handle} {typeHref : String} {answer : Except ApiError Schema}

theorem server_of_asked (asked : (d.setInFlight h true).ensureSchema typeHref = (ready, answer)) :
    ready.server = d.server ∨ ready.server = d.server.perform (.fetchSchema typeHref) := by
  obtain ⟨server, schemas, hready, hserver⟩ := exists_ensureSchema (d.setInFlight h true) typeHref
  rw [asked] at hready
  dsimp only at hready
  rw [hready]
  exact hserver

theorem clock_of_asked (asked : (d.setInFlight h true).ensureSchema typeHref = (ready, answer)) :
    ready.clock = d.clock := by
  obtain ⟨server, schemas, hready, -⟩ := exists_ensureSchema (d.setInFlight h true) typeHref
  rw [asked] at hready
  dsimp only at hready
  rw [hready]
  rfl

theorem packages_of_asked (asked : (d.setInFlight h true).ensureSchema typeHref = (ready, answer)) :
    ready.server.packages = d.server.packages ∧ ready.server.lastId = d.server.lastId := by
  rcases server_of_asked asked with hserver | hserver <;> rw [hserver]
  · exact ⟨rfl, rfl⟩
  · have hsame := Server.sameStore_fetchSchema d.server typeHref
    exact ⟨hsame.packages, hsame.lastId⟩

theorem updates_of_asked (asked : (d.setInFlight h true).ensureSchema typeHref = (ready, answer)) :
    ready.server.calls.get .update = d.server.calls.get .update ∧
      ready.server.failures.get .update = d.server.failures.get .update := by
  rcases server_of_asked asked with hserver | hserver <;> rw [hserver]
  · exact ⟨rfl, rfl⟩
  · rw [Server.perform, Server.server_fetchSchema]
    exact ⟨Server.calls_begin _ .schema .update, Server.failures_begin_of_ne _ (by decide)⟩

end Asked

/-! ## Submitting -/

def answered (d : Desk) (server : Server) : Desk := { d with clock := d.clock.read.2, server }

section Submit

variable {d : Desk} {h : Handle} {pristine saved : Snapshot} {payload : Payload}
  {changes : Attributes} {error : ApiError} {server : Server}

theorem submit_of_refused (sent : d.server.update d.clock.now pristine payload = (.error error, server)) :
    d.submit h pristine payload changes = (d.answered server).failSave h (.api error) := by
  simp only [submit, readClock, request, Clock.read] at sent ⊢
  rw [sent]
  rfl

theorem submit_of_saved (sent : d.server.update d.clock.now pristine payload = (.ok saved, server)) :
    d.submit h pristine payload changes =
      let commit : Commit :=
        { id := saved.id, wasNew := pristine.isNew, workPackage := saved.retainFrom pristine, changes }
      ((d.answered server).settle h commit, .ok commit) := by
  simp only [submit, readClock, request, Clock.read] at sent ⊢
  rw [sent]
  rfl

end Submit

/-! ## The five ends -/

/-- The desk and the result of a save. `ready` is the desk with the flag up and the schema there. -/
inductive SaveEnds (d : Desk) (h : Handle) : Desk → Except EditError Commit → Prop
  | busy (pending : (d.changeset h).inFlight = true) :
      SaveEnds d h d (.error (.saveInFlight (d.changeset h).id))
  | noSchema {ready : Desk} {error : ApiError}
      (free : (d.changeset h).inFlight = false)
      (asked : (d.setInFlight h true).ensureSchema (d.changeset h).pristine.typeHref =
        (ready, .error error)) :
      SaveEnds d h (ready.setInFlight h false) (.error (.api error))
  | invalid {ready : Desk} {schema : Schema} {errors : ValidationErrors}
      (free : (d.changeset h).inFlight = false)
      (asked : (d.setInFlight h true).ensureSchema (d.changeset h).pristine.typeHref =
        (ready, .ok schema))
      (built : (d.changeset h).buildPayload schema = .error errors) :
      SaveEnds d h (ready.setInFlight h false) (.error (.validation errors))
  | refused {ready : Desk} {schema : Schema} {payload : Payload} {error : ApiError}
      {server : Server}
      (free : (d.changeset h).inFlight = false)
      (asked : (d.setInFlight h true).ensureSchema (d.changeset h).pristine.typeHref =
        (ready, .ok schema))
      (built : (d.changeset h).buildPayload schema = .ok payload)
      (sent : ready.server.update ready.clock.now (d.changeset h).pristine payload =
        (.error error, server)) :
      SaveEnds d h ((ready.answered server).setInFlight h false) (.error (.api error))
  | done {ready : Desk} {schema : Schema} {payload : Payload} {saved : Snapshot} {server : Server}
      (free : (d.changeset h).inFlight = false)
      (asked : (d.setInFlight h true).ensureSchema (d.changeset h).pristine.typeHref =
        (ready, .ok schema))
      (built : (d.changeset h).buildPayload schema = .ok payload)
      (sent : ready.server.update ready.clock.now (d.changeset h).pristine payload =
        (.ok saved, server)) :
      SaveEnds d h
        (((ready.answered server).settle h ((d.changeset h).commit saved)).runHooks
          ((d.changeset h).commit saved) d.hooks)
        (.ok ((d.changeset h).commit saved))

theorem save_of_free {d : Desk} {h : Handle} (free : (d.changeset h).inFlight = false) :
    d.save h =
      match (d.setInFlight h true).ensureSchema (d.changeset h).pristine.typeHref with
      | (ready, .ok schema) =>
        ready.finish
          { handle := h, hooks := d.hooks, stage := .schema (d.changeset h).pristine (.has schema) }
      | (ready, .error error) => ready.failSave h (.api error) := by
  rw [save, startSave_of_free free]
  exact finish_looks ..

theorem compose_ensureSchema (d : Desk) (h : Handle) (typeHref : String) (schema : Schema) :
    ((d.setInFlight h true).ensureSchema typeHref).1.compose h schema =
      match (d.changeset h).buildPayload schema with
      | .ok payload => .ok (payload, (d.changeset h).changes)
      | .error errors => .error (.validation errors) := by
  obtain ⟨server, schemas, hready, -⟩ := exists_ensureSchema (d.setInFlight h true) typeHref
  obtain ⟨inFlight, hc⟩ := exists_changeset_setInFlight d h true
  have hsame : ((d.setInFlight h true).ensureSchema typeHref).1.changeset h =
      { d.changeset h with inFlight } := by
    rw [hready]
    exact hc
  rw [compose, hsame]
  rfl

theorem save_ends (d : Desk) (h : Handle) : SaveEnds d h (d.save h).1 (d.save h).2 := by
  cases hf : (d.changeset h).inFlight with
  | true =>
    have hs : d.save h = (d, .error (.saveInFlight (d.changeset h).id)) := by
      rw [save, startSave_of_inFlight hf]
      exact finish_finished ..
    rw [hs]
    exact .busy hf
  | false =>
    rw [save_of_free hf]
    rcases ha : (d.setInFlight h true).ensureSchema (d.changeset h).pristine.typeHref with
      ⟨ready, error | schema⟩
    · exact .noSchema hf ha
    · have hcompose := compose_ensureSchema d h (d.changeset h).pristine.typeHref schema
      rw [ha] at hcompose
      dsimp only at hcompose ⊢
      rw [finish_has, hcompose]
      cases hb : (d.changeset h).buildPayload schema with
      | error errors => exact .invalid hf ha hb
      | ok payload =>
        rcases hu : ready.server.update ready.clock.now (d.changeset h).pristine payload with
          ⟨error | saved, server⟩
        · simp only [finish_submission, submit_of_refused hu]
          exact .refused hf ha hb hu
        · simp only [finish_submission, submit_of_saved hu]
          exact .done hf ha hb hu

theorem ends_of_save {d after : Desk} {h : Handle} {result : Except EditError Commit}
    (saved : d.save h = (after, result)) : SaveEnds d h after result := by
  have hends := save_ends d h
  rwa [saved] at hends

end Desk

end Draftboard
