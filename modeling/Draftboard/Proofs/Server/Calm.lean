import Draftboard.Proofs.Server.Stores
/-!
# A server on which nothing fails

With no failure queued, a request does its work, and the answer can be told from what is stored.
-/

namespace Draftboard.Server

def Calm (s : Server) : Prop := ∀ op, s.failures.get op = []

theorem Calm.failures_begin {s : Server} (calm : s.Calm) (op : Operation) :
    (s.begin op).2.failures = s.failures := by
  rw [begin_of_failures_eq_nil (calm op)]

theorem Calm.of_failures_eq {s s' : Server} (calm : s.Calm) (h : s'.failures = s.failures) : s'.Calm := by
  intro op
  rw [h]
  exact calm op

theorem Calm.request_eq {α : Type} {s : Server} (calm : s.Calm) (op : Operation)
    (work : Server → Except ApiError α × Server) : s.request op work = work (s.begin op).2 := by
  unfold request
  rw [begin_of_failures_eq_nil (calm op)]

theorem Calm.fetch_eq {s : Server} (calm : s.Calm) (id : PackageId) :
    s.fetch id = (match s.packages[id]? with
      | some snapshot => .ok snapshot
      | none => .error (.notFound .workPackage id.text), (s.begin .fetch).2) := by
  unfold fetch
  rw [calm.request_eq, (sameStore_begin s .fetch).packages]
  cases s.packages[id]? <;> rfl

theorem Calm.fetchSchema_eq {s : Server} (calm : s.Calm) (typeHref : String) :
    s.fetchSchema typeHref = (match s.schemas[typeHref]? with
      | some schema => .ok schema
      | none => .error (.notFound .schema typeHref), (s.begin .schema).2) := by
  unfold fetchSchema
  rw [calm.request_eq, (sameStore_begin s .schema).schemas]
  cases s.schemas[typeHref]? <;> rfl

theorem Calm.update_eq {s : Server} (calm : s.Calm) (now : Instant) (pristine : Snapshot)
    (payload : Payload) : (s.update now pristine payload).1 = s.savedRecord now pristine payload :=
  fst_update_of_failures_eq_nil (calm .update) now pristine payload

section Update

variable {s s' : Server} {now : Instant} {pristine saved : Snapshot} {payload : Payload}

theorem schemas_of_update (sent : s.update now pristine payload = (.ok saved, s')) :
    s'.schemas = s.schemas := by
  obtain ⟨packages, rfl⟩ := exists_of_update_eq_ok sent
  exact (sameStore_begin s .update).schemas

theorem Calm.after_update (calm : s.Calm)
    (sent : s.update now pristine payload = (.ok saved, s')) : s'.Calm := by
  obtain ⟨packages, rfl⟩ := exists_of_update_eq_ok sent
  exact calm.of_failures_eq (calm.failures_begin .update)

theorem savedRecord_of_persisted (persisted : pristine.isNew = false) :
    s.savedRecord now pristine payload =
      match s.packages[pristine.id]? with
      | none => .error (.notFound .workPackage pristine.id.text)
      | some current =>
        if current.lockVersion ≠ payload.lockVersion then
          .error (.conflict pristine.id payload.lockVersion current.lockVersion)
        else .ok ((current.applyPayload payload).touch now) := by
  unfold savedRecord
  rw [persisted]
  rfl

end Update

theorem Calm.run_fetch {s : Server} (calm : s.Calm) {calls : List Call}
    (fetches : ∀ call ∈ calls, ∃ id, call = .fetch id) : (s.run calls).Calm := by
  induction calls generalizing s with
  | nil => exact calm
  | cons call rest ih =>
    obtain ⟨id, rfl⟩ := fetches _ List.mem_cons_self
    refine ih ?_ fun later hlater => fetches later (List.mem_cons_of_mem _ hlater)
    rw [perform, calm.fetch_eq]
    exact calm.of_failures_eq (calm.failures_begin .fetch)

/-! ## Schemas -/

theorem schemas_perform (s : Server) (call : Call) : (s.perform call).schemas = s.schemas := by
  cases call with
  | fetch id => exact (sameStore_fetch s id).schemas
  | fetchSchema typeHref => exact (sameStore_fetchSchema s typeHref).schemas
  | update now pristine payload =>
    simp only [perform]
    rcases hu : s.update now pristine payload with ⟨error | saved, after⟩
    · rw [update_eq_error hu]
      exact (sameStore_begin s .update).schemas
    · exact schemas_of_update hu
  | updatedSince ids since => exact (sameStore_updatedSince s ids since).schemas
  | deleteAttachment a =>
    obtain ⟨attachments, heq⟩ := exists_deleteAttachment s a
    rw [perform, heq]
    exact (sameStore_begin s .delete).schemas
  | failNext op error => rfl

theorem schemas_run (s : Server) (calls : List Call) : (s.run calls).schemas = s.schemas := by
  induction calls generalizing s with
  | nil => rfl
  | cons call rest ih => exact (ih _).trans (s.schemas_perform call)

theorem Reachable.typeHref_eq {s : Server} (h : s.Reachable) {typeHref : String} {schema : Schema}
    (stored : s.schemas[typeHref]? = some schema) : schema.typeHref = typeHref := by
  induction h with
  | empty => simp at stored
  | insert snapshot _ ih => exact ih stored
  | insertSchema added _ ih =>
    simp only [Server.insertSchema, Std.ExtTreeMap.getElem?_insert, Std.LawfulEqOrd.compare_eq_iff_eq] at stored
    split at stored
    · rename_i heq
      rw [← Option.some.inj stored]
      exact heq
    · exact ih stored
  | insertAttachment a _ ih => exact ih stored
  | perform call _ ih =>
    rw [schemas_perform] at stored
    exact ih stored

end Draftboard.Server
