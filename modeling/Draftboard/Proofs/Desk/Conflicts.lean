import Draftboard.Proofs.Desk.Changes
/-!
# No update is lost

Clients take turns at one server, each with a desk of its own that may have come to any state in
between. Of the updates of a stored work package that go by one lock version, one succeeds at
most. After it the server refuses that version, and says which one it has.
-/

namespace Draftboard

def Desk.facing (d : Desk) (server : Server) : Desk := { d with server }

/-! ## Turns -/

/-- What one client does at a time. -/
inductive Turn where
  | call (c : Server.Call)
  | save (desk : Desk) (h : Handle)
  /-- The next step of a save that is under way on its desk. -/
  | advance (desk : Desk) (job : SaveJob)

namespace Turn

def target? : Turn → Option (PackageId × Nat)
  | call (.update _ pristine payload) => some (pristine.id, payload.lockVersion)
  | call _ => none
  | save desk h => some ((desk.changeset h).id, (desk.changeset h).pristine.lockVersion)
  | advance _ job =>
    match job.stage with
    | .submission pristine payload _ => some (pristine.id, payload.lockVersion)
    | _ => none

def error? (s : Server) : Turn → Option EditError
  | call (.update now pristine payload) =>
    match (s.update now pristine payload).1 with
    | .error error => some (.api error)
    | .ok _ => none
  | call _ => none
  | save desk h =>
    match ((desk.facing s).save h).2 with
    | .error error => some error
    | .ok _ => none
  | advance desk job =>
    match ((desk.facing s).advance job).2.stage with
    | .finished (.error error) => some error
    | _ => none

end Turn

namespace Server

def play (s : Server) : Turn → Server
  | .call c => s.perform c
  | .save desk h => ((desk.facing s).save h).1.server
  | .advance desk job => ((desk.facing s).advance job).1.server

theorem exists_run_play (s : Server) (turn : Turn) : ∃ calls, s.play turn = s.run calls := by
  cases turn with
  | call c => exact ⟨[c], rfl⟩
  | save desk h => exact ((desk.facing s).changes_save h).exists_run (by decide)
  | advance desk job =>
    exact (((desk.facing s).changes_advance job).mono job.stage.parts_subset_saving).exists_run (by decide)

theorem Reachable.play {s : Server} (h : s.Reachable) (turn : Turn) : (s.play turn).Reachable := by
  obtain ⟨calls, hcalls⟩ := exists_run_play s turn
  rw [hcalls]
  exact h.run calls

end Server

/-! ## How an update ends -/

/-- A turn with a target fails before its update is sent, or its update fails, or it succeeds. The
update meets the work packages and the queued failures that were there when the turn began. -/
inductive Turn.Ends (s : Server) (turn : Turn) (id : PackageId) (version : Nat) : Prop
  | unsent {error : EditError} (told : turn.error? s = some error)
      (uncounted : (s.play turn).calls.get .update = s.calls.get .update)
  | refused {asked after : Server} {now : Instant} {pristine : Snapshot} {payload : Payload}
      {error : ApiError} (packages : asked.packages = s.packages)
      (failures : asked.failures.get .update = s.failures.get .update)
      (target : pristine.id = id) (basis : payload.lockVersion = version)
      (sent : asked.update now pristine payload = (.error error, after))
      (told : turn.error? s = some (.api error))
  | saved {asked after : Server} {now : Instant} {pristine saved : Snapshot} {payload : Payload}
      (packages : asked.packages = s.packages)
      (target : pristine.id = id) (basis : payload.lockVersion = version)
      (sent : asked.update now pristine payload = (.ok saved, after))
      (told : turn.error? s = none) (stored : (s.play turn).packages = after.packages)

theorem Turn.ends_save {s : Server} {desk : Desk} {h : Handle} :
    (Turn.save desk h).Ends s (desk.changeset h).id (desk.changeset h).pristine.lockVersion := by
  have hends := (desk.facing s).save_ends h
  have htold : ∀ error, ((desk.facing s).save h).2 = .error error →
      (Turn.save desk h).error? s = some error := by
    intro error herror
    simp only [error?, herror]
  have hplay : s.play (.save desk h) = ((desk.facing s).save h).1.server := rfl
  rcases hs : (desk.facing s).save h with ⟨after, result⟩
  rw [hs] at hends htold hplay
  cases hends with
  | busy pending => exact .unsent (htold _ rfl) (by rw [hplay])
  | noSchema free asked =>
    exact .unsent (htold _ rfl) (by rw [hplay]; exact (Desk.updates_of_asked asked).1)
  | invalid free asked built =>
    exact .unsent (htold _ rfl) (by rw [hplay]; exact (Desk.updates_of_asked asked).1)
  | refused free asked built sent =>
    exact .refused (Desk.packages_of_asked asked).1 (Desk.updates_of_asked asked).2 rfl
      (Changeset.lockVersion_of_buildPayload built) sent (htold _ rfl)
  | done free asked built sent =>
    refine .saved (Desk.packages_of_asked asked).1 rfl
      (Changeset.lockVersion_of_buildPayload built) sent ?_ ?_
    · simp only [error?, hs]
    · rw [hplay]
      exact (Desk.packages_runHooks _ _ _).trans (congrArg Server.packages (Desk.server_settle _ _ _))

theorem Turn.ends {s : Server} {turn : Turn} {id : PackageId} {version : Nat}
    (target : turn.target? = some (id, version)) : turn.Ends s id version := by
  cases turn with
  | call c =>
    cases c with
    | update now pristine payload =>
      cases target
      rcases hu : s.update now pristine payload with ⟨error | saved, after⟩
      · exact .refused rfl rfl rfl rfl hu (by simp only [error?, hu])
      · exact .saved rfl rfl rfl hu (by simp only [error?, hu])
          (congrArg (fun answer => answer.2.packages) hu)
    | _ => cases target
  | save desk h =>
    cases target
    exact ends_save
  | advance desk job =>
    obtain ⟨h, hooks, stage⟩ := job
    cases stage with
    | submission pristine payload changes =>
      cases target
      rcases hu : s.update desk.clock.now pristine payload with ⟨error | saved, after⟩
      · have hsubmit : (desk.facing s).submit h pristine payload changes =
            ((desk.facing s).answered after).failSave h (.api error) := Desk.submit_of_refused hu
        exact .refused rfl rfl rfl rfl hu (by simp only [error?, Desk.advance, hsubmit]; rfl)
      · have hsubmit : (desk.facing s).submit h pristine payload changes = _ :=
          Desk.submit_of_saved hu
        refine .saved rfl rfl rfl hu (by simp only [error?, Desk.advance, hsubmit]) ?_
        simp only [Server.play, Desk.advance, hsubmit, Desk.server_settle]
        rfl
    | _ => cases target

section Ends

variable {s : Server} {turn : Turn} {id : PackageId} {version : Nat}

theorem Turn.Ends.conflict (ends : turn.Ends s id version) (persisted : id ≠ .unsaved)
    {current : Snapshot} (hp : s.packages[id]? = some current) (passed : version < current.lockVersion) :
    ∃ error, turn.error? s = some error ∧
      (s.failures.get .update = [] →
        (s.play turn).calls.get .update = s.calls.get .update + 1 →
        error = .api (.conflict id version current.lockVersion)) := by
  have hne : current.lockVersion ≠ version := Nat.ne_of_gt passed
  -- The version has been left behind, so the turn cannot be one of those that succeed.
  cases ends with
  | unsent told uncounted =>
    refine ⟨_, told, fun _ counted => ?_⟩
    rw [uncounted] at counted
    omega
  | @refused asked after now pristine payload error packages failures target basis sent told =>
    refine ⟨_, told, fun clear _ => ?_⟩
    subst target basis
    rw [← packages] at hp
    have hconflict : (asked.update now pristine payload).1 =
        .error (.conflict pristine.id payload.lockVersion current.lockVersion) :=
      Server.update_of_savedRecord_eq_error (failures.trans clear)
        (Server.savedRecord_of_stale (Snapshot.isNew_eq_false persisted) hp hne)
    rw [sent] at hconflict
    rw [Except.error.inj hconflict]
  | saved packages target basis sent told stored =>
    subst target basis
    obtain ⟨found, new, hfound, hversion, -, -⟩ :=
      Server.lockVersion_of_update_eq_ok (Snapshot.isNew_eq_false persisted) sent
    rw [packages, hp] at hfound
    cases hfound
    exact absurd hversion hne

end Ends

namespace Server

/-! ## One update for each version -/

section Room

variable {s : Server} (h : s.Reachable) {limit : Nat} (room : s.HasRoom limit)
include h room

end Room

end Server

end Draftboard
