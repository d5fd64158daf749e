import Mathlib.Logic.Basic
import Draftboard.Server
/-!
# Updates on the server

What an update does to the stored work packages: nothing when it fails, and otherwise it stores
the saved record and touches the parent that the record names.
-/

namespace Draftboard

/-! ## Records -/

theorem Snapshot.getElem?_applyPayload {p : Payload}
    (split : ∀ name : String, p.attributes[name]? = none ∨ p.links[name]? = none) (s : Snapshot)
    (name : String) :
    (s.applyPayload p).attributes[name]? = (p.get? name).or s.attributes[name]? := by
  simp only [applyPayload, Payload.get?, Std.ExtTreeMap.getElem?_union]
  rcases split name with h | h <;> simp [h]

theorem Snapshot.mem_applyPayload (p : Payload) {s : Snapshot} {name : String}
    (h : name ∈ s.attributes) : name ∈ (s.applyPayload p).attributes := by
  simp [applyPayload, h]

theorem Snapshot.isNew_eq_false {s : Snapshot} (h : s.id ≠ .unsaved) : s.isNew = false := by
  rw [← Bool.not_eq_true, isNew, PackageId.isNew_iff]
  exact h

theorem PerOperation.set_comm {α : Type} {op other : Operation} (hne : op ≠ other)
    (p : PerOperation α) (a b : α) : (p.set op a).set other b = (p.set other b).set op a := by
  cases op <;> cases other <;> simp_all [set]

theorem eq_ok_of_toOption {ε α : Type} {e : Except ε α} {a : α} (h : e.toOption = some a) :
    e = .ok a := by
  cases e with
  | error error => cases h
  | ok b => exact congrArg Except.ok (Option.some.inj h)

namespace Server

/-! ## Counting -/

theorem exists_begin (s : Server) (op : Operation) :
    ∃ calls failures, (s.begin op).2 = { s with calls, failures } := by
  unfold begin
  split <;> exact ⟨_, _, rfl⟩

theorem begin_of_failures_eq_nil {s : Server} {op : Operation} (h : s.failures.get op = []) :
    s.begin op = (none, { s with calls := s.calls.set op (s.calls.get op + 1) }) := by
  unfold begin
  rw [h]

theorem calls_begin (s : Server) (op other : Operation) :
    (s.begin op).2.calls.get other = if op = other then s.calls.get other + 1 else s.calls.get other := by
  unfold begin
  split <;>
  · simp only [PerOperation.get_set]
    split
    · rename_i heq
      rw [heq]
    · rfl

theorem failures_begin_of_ne (s : Server) {op other : Operation} (h : op ≠ other) :
    (s.begin op).2.failures.get other = s.failures.get other := by
  unfold begin
  split
  · rfl
  · rw [PerOperation.get_set, if_neg h]

/-! ## Requests that only look -/

theorem server_request {α : Type} (s : Server) (op : Operation)
    {work : Server → Except ApiError α × Server} (looks : ∀ s, (work s).2 = s) :
    (s.request op work).2 = (s.begin op).2 := by
  unfold request
  rcases s.begin op with ⟨_ | error, counted⟩
  · exact looks counted
  · rfl

theorem server_fetch (s : Server) (id : PackageId) : (s.fetch id).2 = (s.begin .fetch).2 :=
  server_request s .fetch fun s => by split <;> rfl

theorem server_fetchSchema (s : Server) (typeHref : String) :
    (s.fetchSchema typeHref).2 = (s.begin .schema).2 :=
  server_request s .schema fun s => by split <;> rfl

theorem server_updatedSince (s : Server) (ids : List PackageId) (since : Instant) :
    (s.updatedSince ids since).2 = (s.begin .since).2 := server_request s .since fun _ => rfl

theorem exists_deleteAttachment (s : Server) (a : Attachment) :
    ∃ attachments, (s.deleteAttachment a).2 = { (s.begin .delete).2 with attachments } := by
  unfold deleteAttachment request
  rcases s.begin .delete with ⟨_ | error, counted⟩
  · dsimp only
    split
    · exact ⟨_, rfl⟩
    · exact ⟨counted.attachments, rfl⟩
  · exact ⟨counted.attachments, rfl⟩

/-- What is stored is as it was. -/
structure SameStore (s s' : Server) : Prop where
  packages : s'.packages = s.packages
  schemas : s'.schemas = s.schemas
  attachments : s'.attachments = s.attachments
  lastId : s'.lastId = s.lastId

theorem SameStore.refl (s : Server) : s.SameStore s := ⟨rfl, rfl, rfl, rfl⟩

theorem SameStore.trans {first middle last : Server} (h : first.SameStore middle)
    (h' : middle.SameStore last) : first.SameStore last :=
  ⟨h'.packages.trans h.packages, h'.schemas.trans h.schemas, h'.attachments.trans h.attachments,
    h'.lastId.trans h.lastId⟩

theorem sameStore_begin (s : Server) (op : Operation) : s.SameStore (s.begin op).2 := by
  obtain ⟨calls, failures, heq⟩ := exists_begin s op
  rw [heq]
  exact ⟨rfl, rfl, rfl, rfl⟩

theorem sameStore_fetch (s : Server) (id : PackageId) : s.SameStore (s.fetch id).2 := by
  rw [server_fetch]
  exact sameStore_begin s .fetch

theorem sameStore_fetchSchema (s : Server) (typeHref : String) :
    s.SameStore (s.fetchSchema typeHref).2 := by
  rw [server_fetchSchema]
  exact sameStore_begin s .schema

theorem sameStore_updatedSince (s : Server) (ids : List PackageId) (since : Instant) :
    s.SameStore (s.updatedSince ids since).2 := by
  rw [server_updatedSince]
  exact sameStore_begin s .since

/-! ## Failures of another kind -/

def requeue (s : Server) (op : Operation) (errors : List ApiError) : Server :=
  { s with failures := s.failures.set op errors }

section Requeue

variable {op other : Operation} (hne : op ≠ other) (errors : List ApiError)
include hne

theorem begin_requeue (s : Server) :
    (s.requeue op errors).begin other = ((s.begin other).1, (s.begin other).2.requeue op errors) := by
  have hsame : (s.requeue op errors).failures.get other = s.failures.get other := by
    rw [requeue, PerOperation.get_set, if_neg hne]
  have hset : ∀ rest : List ApiError, (s.failures.set op errors).set other rest =
      (s.failures.set other rest).set op errors := by
    intro rest
    exact PerOperation.set_comm hne _ _ _
  unfold begin
  rw [hsame]
  cases s.failures.get other with
  | nil => rfl
  | cons error rest => simp only [requeue, hset]

theorem request_requeue {α : Type} (s : Server) {work : Server → Except ApiError α × Server}
    (hwork : ∀ s, work (s.requeue op errors) = ((work s).1, (work s).2.requeue op errors)) :
    (s.requeue op errors).request other work =
      ((s.request other work).1, (s.request other work).2.requeue op errors) := by
  unfold request
  rw [begin_requeue hne]
  rcases s.begin other with ⟨_ | error, counted⟩
  · exact hwork counted
  · rfl

end Requeue

theorem fetchSchema_requeue {op : Operation} (hne : op ≠ .schema) (errors : List ApiError) (s : Server)
    (typeHref : String) :
    (s.requeue op errors).fetchSchema typeHref =
      ((s.fetchSchema typeHref).1, (s.fetchSchema typeHref).2.requeue op errors) := by
  refine request_requeue hne errors s fun s => ?_
  have hsame : (s.requeue op errors).schemas = s.schemas := rfl
  rw [hsame]
  split <;> rfl

theorem store_requeue (op : Operation) (errors : List ApiError) (s : Server) (now : Instant)
    (saved : Snapshot) : (s.requeue op errors).store now saved = (s.store now saved).requeue op errors := by
  have htouch : ∀ parent, (s.requeue op errors).touchStored now parent =
      (s.touchStored now parent).requeue op errors := by
    intro parent
    have hsame : (s.requeue op errors).packages = s.packages := rfl
    unfold touchStored
    rw [hsame]
    split <;> rfl
  unfold store
  cases saved.parentId? with
  | none => rfl
  | some parent =>
    dsimp only
    rw [htouch]
    rfl

theorem update_requeue {op : Operation} (hne : op ≠ .update) (errors : List ApiError) (s : Server)
    (now : Instant) (pristine : Snapshot) (payload : Payload) :
    (s.requeue op errors).update now pristine payload =
      ((s.update now pristine payload).1, (s.update now pristine payload).2.requeue op errors) := by
  refine request_requeue hne errors s fun s => ?_
  have hsame : (s.requeue op errors).savedRecord now pristine payload =
      s.savedRecord now pristine payload := rfl
  rw [hsame]
  split
  · rfl
  · rename_i saved _
    split
    · exact congrArg (Prod.mk _) (store_requeue op errors { s with lastId := nextCount s.lastId } now saved)
    · exact congrArg (Prod.mk _) (store_requeue op errors s now saved)

/-! ## Storing -/

theorem getElem?_touchStored (s : Server) (now : Instant) (parent id : PackageId) :
    (s.touchStored now parent).packages[id]? =
      if parent = id then s.packages[id]?.map (·.touch now) else s.packages[id]? := by
  unfold touchStored
  split
  · rename_i stored hstored
    rw [Std.ExtTreeMap.getElem?_insert]
    simp only [Std.LawfulEqOrd.compare_eq_iff_eq]
    split
    · rename_i heq
      rw [← heq, hstored, Option.map_some]
    · rfl
  · rename_i hstored
    split
    · rename_i heq
      rw [← heq, hstored, Option.map_none]
    · rfl

theorem getElem?_store (s : Server) (now : Instant) (saved : Snapshot) (id : PackageId) :
    (s.store now saved).packages[id]? =
      if saved.id = id then some saved
      else if saved.parentId? = some id then s.packages[id]?.map (·.touch now)
      else s.packages[id]? := by
  unfold store
  dsimp only
  rw [Std.ExtTreeMap.getElem?_insert]
  simp only [Std.LawfulEqOrd.compare_eq_iff_eq]
  congr 1
  cases saved.parentId? with
  | none => simp
  | some parent => simp only [getElem?_touchStored, Option.some.injEq]

theorem exists_store (s : Server) (now : Instant) (saved : Snapshot) :
    ∃ packages, s.store now saved = { s with packages } := by
  unfold store touchStored
  dsimp only
  split
  · split <;> exact ⟨_, rfl⟩
  · exact ⟨_, rfl⟩

/-! ## Updates -/

section Update

variable {s s' : Server} {now : Instant} {pristine saved : Snapshot} {payload : Payload}
  {error : ApiError}

theorem savedRecord_begin (s : Server) (op : Operation) (now : Instant) (pristine : Snapshot)
    (payload : Payload) :
    (s.begin op).2.savedRecord now pristine payload = s.savedRecord now pristine payload := by
  unfold begin
  split <;> rfl

theorem update_eq_error (h : s.update now pristine payload = (.error error, s')) :
    s' = (s.begin .update).2 := by
  unfold update request at h
  rcases hb : s.begin .update with ⟨_ | queued, counted⟩
  · rw [hb] at h
    dsimp only at h
    cases hr : counted.savedRecord now pristine payload <;> rw [hr] at h <;> cases h
    rfl
  · rw [hb] at h
    cases h
    rfl

theorem update_eq_ok (h : s.update now pristine payload = (.ok saved, s')) :
    s.failures.get .update = [] ∧ s.savedRecord now pristine payload = .ok saved ∧
      s' = ((if pristine.isNew then { (s.begin .update).2 with lastId := nextCount s.lastId }
        else (s.begin .update).2).store now saved) := by
  unfold update request at h
  cases hq : s.failures.get .update with
  | cons queued rest =>
    have hb : (s.begin .update).1 = some queued := by unfold begin; rw [hq]
    rcases hs : s.begin .update with ⟨_ | first, counted⟩ <;> rw [hs] at h hb <;> cases hb
    cases h
  | nil =>
    have hl := (sameStore_begin s .update).lastId
    have hr := savedRecord_begin s .update now pristine payload
    rw [begin_of_failures_eq_nil hq] at h hl hr ⊢
    dsimp only at h hr ⊢
    rw [hr] at h
    cases hrec : s.savedRecord now pristine payload <;> rw [hrec] at h <;> cases h
    exact ⟨rfl, rfl, rfl⟩

theorem fst_update_of_failures_eq_nil (hq : s.failures.get .update = []) (now : Instant)
    (pristine : Snapshot) (payload : Payload) :
    (s.update now pristine payload).1 = s.savedRecord now pristine payload := by
  have hr := savedRecord_begin s .update now pristine payload
  rw [begin_of_failures_eq_nil hq] at hr
  unfold update request
  rw [begin_of_failures_eq_nil hq]
  dsimp only at hr ⊢
  rw [hr]
  cases s.savedRecord now pristine payload <;> rfl

theorem update_of_savedRecord_eq_error (hq : s.failures.get .update = [])
    (h : s.savedRecord now pristine payload = .error error) :
    (s.update now pristine payload).1 = .error error :=
  (fst_update_of_failures_eq_nil hq now pristine payload).trans h

theorem packages_of_update_eq_ok (h : s.update now pristine payload = (.ok saved, s'))
    (id : PackageId) :
    s'.packages[id]? =
      if saved.id = id then some saved
      else if saved.parentId? = some id then s.packages[id]?.map (·.touch now)
      else s.packages[id]? := by
  obtain ⟨-, -, rfl⟩ := update_eq_ok h
  have hbase : (if pristine.isNew then { (s.begin .update).2 with lastId := nextCount s.lastId }
      else (s.begin .update).2).packages = s.packages := by
    split <;> exact (sameStore_begin s .update).packages
  rw [getElem?_store, hbase]

theorem stored_of_update_eq_ok (h : s.update now pristine payload = (.ok saved, s')) {id : PackageId}
    {stored : Snapshot} (hs : s'.packages[id]? = some stored) :
    (saved.id = id ∧ stored = saved) ∨
      ∃ before, s.packages[id]? = some before ∧ (stored = before ∨ stored = before.touch now) := by
  rw [packages_of_update_eq_ok h] at hs
  split at hs
  · rename_i heq
    exact Or.inl ⟨heq, (Option.some.inj hs).symm⟩
  · split at hs
    · obtain ⟨before, hb, rfl⟩ := Option.map_eq_some_iff.1 hs
      exact Or.inr ⟨before, hb, Or.inr rfl⟩
    · exact Or.inr ⟨stored, hs, Or.inl rfl⟩

theorem exists_of_update_eq_ok (h : s.update now pristine payload = (.ok saved, s')) :
    ∃ packages, s' = { (s.begin .update).2 with
      packages, lastId := if pristine.isNew then nextCount s.lastId else s.lastId } := by
  obtain ⟨-, -, rfl⟩ := update_eq_ok h
  cases pristine.isNew with
  | true => exact exists_store ..
  | false =>
    have hlast := (sameStore_begin s .update).lastId
    simp only [Bool.false_eq_true, if_false, ← hlast]
    exact exists_store ..

theorem lastId_of_update_eq_ok (h : s.update now pristine payload = (.ok saved, s')) :
    s'.lastId = if pristine.isNew then nextCount s.lastId else s.lastId := by
  obtain ⟨packages, rfl⟩ := exists_of_update_eq_ok h
  rfl

theorem saved_of_isNew (hnew : pristine.isNew = true)
    (h : s.savedRecord now pristine payload = .ok saved) :
    saved = { pristine with
      id := .ofNumber (nextCount s.lastId), lockVersion := 0,
      updatedAt := some now }.applyPayload payload := by
  unfold savedRecord at h
  rw [if_pos hnew] at h
  exact (Except.ok.inj h).symm

theorem saved_of_stored (hnew : pristine.isNew = false)
    (h : s.savedRecord now pristine payload = .ok saved) :
    ∃ current, s.packages[pristine.id]? = some current ∧ current.lockVersion = payload.lockVersion ∧
      saved = (current.applyPayload payload).touch now := by
  unfold savedRecord at h
  rw [if_neg (by simp [hnew])] at h
  cases hp : s.packages[pristine.id]? with
  | none => rw [hp] at h; cases h
  | some current =>
    rw [hp] at h
    dsimp only at h
    split at h
    · cases h
    · rename_i hv
      exact ⟨current, rfl, not_not.1 hv, (Except.ok.inj h).symm⟩

theorem updatedAt_of_savedRecord (h : s.savedRecord now pristine payload = .ok saved) :
    saved.updatedAt = some now := by
  cases hnew : pristine.isNew with
  | true =>
    rw [saved_of_isNew hnew h]
    rfl
  | false =>
    obtain ⟨current, -, -, rfl⟩ := saved_of_stored hnew h
    rfl

theorem lockVersion_of_update_eq_ok (hnew : pristine.isNew = false)
    (h : s.update now pristine payload = (.ok saved, s')) :
    ∃ current new, s.packages[pristine.id]? = some current ∧
      current.lockVersion = payload.lockVersion ∧ s'.packages[current.id]? = some new ∧
      new.lockVersion = nextCount current.lockVersion := by
  obtain ⟨-, hr, -⟩ := update_eq_ok h
  obtain ⟨current, hp, hv, rfl⟩ := saved_of_stored hnew hr
  refine ⟨current, (current.applyPayload payload).touch now, hp, hv, ?_, rfl⟩
  rw [packages_of_update_eq_ok h]
  exact if_pos rfl

theorem savedRecord_of_stale {current : Snapshot} (hnew : pristine.isNew = false)
    (hp : s.packages[pristine.id]? = some current) (hv : current.lockVersion ≠ payload.lockVersion) :
    s.savedRecord now pristine payload =
      .error (.conflict pristine.id payload.lockVersion current.lockVersion) := by
  unfold savedRecord
  rw [if_neg (by simp [hnew]), hp]
  exact if_pos hv

end Update

end Server

end Draftboard
