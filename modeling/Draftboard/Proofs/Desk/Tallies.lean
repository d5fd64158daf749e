import Draftboard.Proofs.Server.Calm
import Draftboard.Proofs.Desk.Failures
/-!
# What a save sends and tells

A save sends one update at most, and exactly one if it succeeds. It never asks for the rows that have
changed, and it tells the user nothing on its own.
-/

namespace Draftboard

namespace Server

/-! ## Requests of one kind -/

/-- One request has been counted, and no failure of another kind has been taken. -/
structure Makes (s : Server) (op : Operation) (s' : Server) : Prop where
  calls : ∀ other, s'.calls.get other =
    if op = other then s.calls.get other + 1 else s.calls.get other
  failures : ∀ other, op ≠ other → s'.failures.get other = s.failures.get other

theorem makes_begin (s : Server) (op : Operation) : s.Makes op (s.begin op).2 :=
  ⟨calls_begin s op, fun _ hne => failures_begin_of_ne s hne⟩

theorem makes_fetch (s : Server) (id : PackageId) : s.Makes .fetch (s.fetch id).2 := by
  rw [server_fetch]
  exact makes_begin s .fetch

theorem makes_fetchSchema (s : Server) (typeHref : String) :
    s.Makes .schema (s.fetchSchema typeHref).2 := by
  rw [server_fetchSchema]
  exact makes_begin s .schema

theorem makes_updatedSince (s : Server) (ids : List PackageId) (since : Instant) :
    s.Makes .since (s.updatedSince ids since).2 := by
  rw [server_updatedSince]
  exact makes_begin s .since

theorem makes_update (s : Server) (now : Instant) (pristine : Snapshot) (payload : Payload) :
    s.Makes .update (s.update now pristine payload).2 := by
  have hbegin := makes_begin s .update
  rcases hu : s.update now pristine payload with ⟨error | saved, after⟩
  · rw [update_eq_error hu]
    exact hbegin
  · obtain ⟨packages, rfl⟩ := exists_of_update_eq_ok hu
    exact ⟨hbegin.calls, hbegin.failures⟩

theorem updatedSince_fails_iff (s : Server) (ids : List PackageId) (since : Instant) (error : ApiError) :
    (s.updatedSince ids since).1 = .error error ↔ (s.failures.get .since).head? = some error := by
  unfold updatedSince request begin
  cases s.failures.get .since with
  | nil => simp
  | cons queued rest => simp

/-! ## Updates -/

structure Submits (s : Server) (n : Nat) (s' : Server) : Prop where
  updates : s'.calls.get .update = s.calls.get .update + n
  since : s'.failures.get .since = s.failures.get .since

theorem Submits.refl (s : Server) : s.Submits 0 s := ⟨rfl, rfl⟩

theorem Submits.trans {first middle last : Server} {m n : Nat} (h : first.Submits m middle)
    (h' : middle.Submits n last) : first.Submits (m + n) last := by
  constructor
  · rw [h'.updates, h.updates, Nat.add_assoc]
  · rw [h'.since, h.since]

theorem Makes.submits {s s' : Server} {op : Operation} (h : s.Makes op s') (hu : op ≠ .update)
    (hs : op ≠ .since) : s.Submits 0 s' := by
  constructor
  · rw [h.calls, if_neg hu, Nat.add_zero]
  · exact h.failures .since hs

theorem submits_update (s : Server) (now : Instant) (pristine : Snapshot) (payload : Payload) :
    s.Submits 1 (s.update now pristine payload).2 := by
  have h := makes_update s now pristine payload
  constructor
  · rw [h.calls, if_pos rfl]
  · exact h.failures .since (by decide)

theorem submits_run_fetch (s : Server) {calls : List Call}
    (fetches : ∀ call ∈ calls, ∃ id, call = .fetch id) : s.Submits 0 (s.run calls) := by
  induction calls generalizing s with
  | nil => exact .refl s
  | cons call rest ih =>
    obtain ⟨id, rfl⟩ := fetches _ List.mem_cons_self
    have hfirst : s.Submits 0 (s.perform (.fetch id)) :=
      (makes_fetch s id).submits (by decide) (by decide)
    exact hfirst.trans (ih _ fun later hlater => fetches later (List.mem_cons_of_mem _ hlater))

end Server

namespace Desk

/-! ## Saves -/

section Save

variable {d ready after : Desk} {h : Handle}

theorem submits_of_asked {typeHref : String} {answer : Except ApiError Schema}
    (asked : (d.setInFlight h true).ensureSchema typeHref = (ready, answer)) :
    d.server.Submits 0 ready.server := by
  rcases server_of_asked asked with hserver | hserver <;> rw [hserver]
  · exact .refl d.server
  · exact (Server.makes_fetchSchema d.server typeHref).submits (by decide) (by decide)

theorem submits_of_sent {now : Instant} {pristine : Snapshot} {payload : Payload}
    {result : Except ApiError Snapshot} {server : Server} (before : d.server.Submits 0 ready.server)
    (sent : ready.server.update now pristine payload = (result, server)) :
    d.server.Submits 1 server := by
  have hupdate := Server.submits_update ready.server now pristine payload
  rw [sent] at hupdate
  exact before.trans hupdate

theorem SaveEnds.exists_submits {error : EditError} (ends : SaveEnds d h after (.error error)) :
    ∃ n ≤ 1, d.server.Submits n after.server := by
  cases ends with
  | busy => exact ⟨0, Nat.zero_le 1, .refl d.server⟩
  | noSchema _ asked =>
    have hasked := submits_of_asked asked
    exact ⟨0, Nat.zero_le 1, hasked⟩
  | invalid _ asked =>
    have hasked := submits_of_asked asked
    exact ⟨0, Nat.zero_le 1, hasked⟩
  | refused _ asked _ sent => exact ⟨1, Nat.le_refl 1, submits_of_sent (submits_of_asked asked) sent⟩

theorem SaveEnds.submits {commit : Commit} (ends : SaveEnds d h after (.ok commit)) :
    d.server.Submits 1 after.server := by
  cases ends with
  | @done ready schema payload saved server _ asked _ sent =>
    obtain ⟨calls, hcalls, hfetches⟩ := exists_server_runHooks
      ((ready.answered server).settle h ((d.changeset h).commit saved))
      ((d.changeset h).commit saved) d.hooks
    rw [hcalls, server_settle]
    exact (submits_of_sent (submits_of_asked asked) sent).trans (server.submits_run_fetch hfetches)

end Save

/-! ## Notices and schemas -/

/-- The user has been shown nothing, and the schemas at hand and on the server are the same. -/
structure Discreet (d d' : Desk) : Prop where
  notices : d'.notices = d.notices
  schemas : d'.schemas = d.schemas
  stored : d'.server.schemas = d.server.schemas

theorem Discreet.refl (d : Desk) : d.Discreet d := ⟨rfl, rfl, rfl⟩

section Changes

variable {d d' : Desk} {part : Part} {parts : List Part}

theorem Change.notices_eq (change : d.Change part d') (silent : part ≠ .notices) :
    d'.notices = d.notices := by
  cases change with
  | put x =>
    obtain ⟨more, heq⟩ := exists_putPackage d x
    rw [heq]
  | drop id =>
    obtain ⟨more, heq⟩ := exists_dropPackage d id
    rw [heq]
  | notify => exact absurd rfl silent
  | _ => rfl

theorem Changes.notices_eq (changes : d.Changes parts d') (silent : .notices ∉ parts) :
    d'.notices = d.notices :=
  changes.lift (R := fun d d' => d'.notices = d.notices) (fun _ => rfl) (fun h h' => h'.trans h)
    fun mem change => change.notices_eq (ne_of_mem_of_not_mem mem silent)

theorem Change.schemas_eq (change : d.Change part d') (unlearnt : part ≠ .schemas) :
    d'.schemas = d.schemas := by
  cases change with
  | put x =>
    obtain ⟨more, heq⟩ := exists_putPackage d x
    rw [heq]
  | drop id =>
    obtain ⟨more, heq⟩ := exists_dropPackage d id
    rw [heq]
  | schema => exact absurd rfl unlearnt
  | _ => rfl

theorem Changes.schemas_eq (changes : d.Changes parts d') (unlearnt : .schemas ∉ parts) :
    d'.schemas = d.schemas :=
  changes.lift (R := fun d d' => d'.schemas = d.schemas) (fun _ => rfl) (fun h h' => h'.trans h)
    fun mem change => change.schemas_eq (ne_of_mem_of_not_mem mem unlearnt)

theorem Changes.discreet (changes : d.Changes parts d') (silent : .notices ∉ parts)
    (unlearnt : .schemas ∉ parts) (ours : .elsewhere ∉ parts) : d.Discreet d' where
  notices := changes.notices_eq silent
  schemas := changes.schemas_eq unlearnt
  stored := by
    obtain ⟨calls, hcalls⟩ := changes.exists_run ours
    rw [hcalls, Server.schemas_run]

end Changes

theorem discreet_of_call {d : Desk} {server : Server} (call : Server.Call)
    (performed : server = d.server.perform call) : d.Discreet { d with server } :=
  ⟨rfl, rfl, performed ▸ d.server.schemas_perform call⟩

theorem notices_save (d : Desk) (h : Handle) : (d.save h).1.notices = d.notices :=
  (changes_save d h).notices_eq (by decide)

end Desk

end Draftboard
