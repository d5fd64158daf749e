import Draftboard.Proofs.Desk.Fidelity
import Draftboard.Proofs.Desk.Flags
/-!
# Saves that fail

A save may fail at four depths. At each of them all that it leaves behind is what it asked the
server for: the edits are there to be saved again, and nobody hears of anything.
-/

namespace Draftboard

def EditError.isInFlight : EditError → Bool
  | .saveInFlight _ => true
  | .validation _ | .api _ => false

def EditError.isValidation : EditError → Bool
  | .validation _ => true
  | .saveInFlight _ | .api _ => false

namespace Server

/-! ## Requests that come to nothing -/

/-- Requests have been counted and queued failures taken, and that is all. -/
structure OnlyAsked (s s' : Server) : Prop where
  eq : ∃ calls failures, s' = { s with calls, failures }
  /-- None of them was of another kind than those of a save before its hooks. -/
  calls : ∀ op, op ≠ .schema → op ≠ .update → s'.calls.get op = s.calls.get op

theorem OnlyAsked.refl (s : Server) : s.OnlyAsked s := ⟨⟨s.calls, s.failures, rfl⟩, fun _ _ _ => rfl⟩

theorem OnlyAsked.trans {first middle last : Server} (h : first.OnlyAsked middle)
    (h' : middle.OnlyAsked last) : first.OnlyAsked last := by
  obtain ⟨⟨calls, failures, heq⟩, hcalls⟩ := h
  obtain ⟨⟨calls', failures', heq'⟩, hcalls'⟩ := h'
  refine ⟨⟨calls', failures', ?_⟩, fun op hs hu => (hcalls' op hs hu).trans (hcalls op hs hu)⟩
  rw [heq', heq]

theorem onlyAsked_begin (s : Server) {op : Operation} (save : op = .schema ∨ op = .update) :
    s.OnlyAsked (s.begin op).2 where
  eq := by
    unfold begin
    split <;> exact ⟨_, _, rfl⟩
  calls other hschema hupdate := by
    rw [calls_begin, if_neg]
    rintro rfl
    exact save.elim hschema hupdate

theorem OnlyAsked.packages {s s' : Server} (h : s.OnlyAsked s') : s'.packages = s.packages := by
  obtain ⟨calls, failures, heq⟩ := h.eq
  rw [heq]

end Server

namespace Desk

/-! ## Nothing is left behind -/

/-- What a save that failed has left as it was. Flags are as before too. -/
structure Untouched (d after : Desk) : Prop where
  changeset : ∀ k, after.changeset k = d.changeset k
  registry : after.registry = d.registry
  cache : after.cache = d.cache
  server : d.server.OnlyAsked after.server
  /-- No subscriber has heard of anything, and no probe has run. -/
  deliveries : after.deliveries = d.deliveries
  views : after.views = d.views
  activity : after.activity = d.activity
  bus : after.bus = d.bus
  notices : after.notices = d.notices

theorem untouched_refl (d : Desk) : d.Untouched d :=
  ⟨fun _ => rfl, rfl, rfl, .refl d.server, rfl, rfl, rfl, rfl, rfl⟩

theorem changeset_raised_lowered {d : Desk} {h : Handle} (free : (d.changeset h).inFlight = false)
    (k : Handle) : ((d.setInFlight h true).setInFlight h false).changeset k = d.changeset k := by
  rw [changeset_lowered]
  split
  · rename_i heq
    obtain ⟨inFlight, hraised⟩ := exists_changeset_setInFlight d h true
    rw [← heq, hraised, ← free]
  · rename_i hne
    exact changeset_modifyQuietly_of_ne d _ hne

theorem untouched_setInFlight {d : Desk} {h : Handle} (free : (d.changeset h).inFlight = false)
    {server : Server} {schemas : TextMap Schema} {clock : Clock} (asked : d.server.OnlyAsked server) :
    d.Untouched
      (({ d.setInFlight h true with server, schemas, clock } : Desk).setInFlight h false) :=
  ⟨changeset_raised_lowered free, rfl, rfl, asked, rfl, rfl, rfl, rfl, rfl⟩

theorem answer_ensureSchema (d other : Desk) (server : d.server = other.server)
    (schemas : d.schemas = other.schemas) (typeHref : String) :
    (d.ensureSchema typeHref).2 = (other.ensureSchema typeHref).2 := by
  unfold ensureSchema fetchSchema request
  rw [server, schemas]
  dsimp only
  split
  · rfl
  · rcases other.server.fetchSchema typeHref with ⟨error | schema, after⟩ <;> rfl

section Asked

variable {d ready : Desk} {h : Handle} {typeHref : String} {answer : Except ApiError Schema}

theorem exists_ready (asked : (d.setInFlight h true).ensureSchema typeHref = (ready, answer)) :
    ∃ server schemas, ready = { d.setInFlight h true with server, schemas } ∧
      d.server.OnlyAsked server := by
  obtain ⟨server, schemas, hready, hserver⟩ := exists_ensureSchema (d.setInFlight h true) typeHref
  rw [asked] at hready
  refine ⟨server, schemas, hready, ?_⟩
  rcases hserver with hserver | hserver <;> rw [hserver]
  · exact .refl d.server
  · rw [Server.perform, Server.server_fetchSchema]
    exact Server.onlyAsked_begin d.server (Or.inl rfl)

theorem answer_of_asked (asked : (d.setInFlight h true).ensureSchema typeHref = (ready, answer)) :
    (d.ensureSchema typeHref).2 = answer := by
  have hanswer := answer_ensureSchema (d.setInFlight h true) d rfl rfl typeHref
  rw [← hanswer, asked]

end Asked

section Failed

variable {d after : Desk} {h : Handle} {error : EditError}

theorem untouched_save (failed : d.save h = (after, .error error)) : d.Untouched after := by
  cases ends_of_save failed with
  | busy => exact untouched_refl d
  | noSchema free asked =>
    obtain ⟨server, schemas, rfl, hasked⟩ := exists_ready asked
    exact untouched_setInFlight free hasked
  | invalid free asked =>
    obtain ⟨server, schemas, rfl, hasked⟩ := exists_ready asked
    exact untouched_setInFlight free hasked
  | refused free asked _ sent =>
    obtain ⟨server, schemas, rfl, hasked⟩ := exists_ready asked
    rw [Server.update_eq_error sent]
    exact untouched_setInFlight free (hasked.trans (Server.onlyAsked_begin server (Or.inr rfl)))

theorem isInFlight_of_failed (failed : d.save h = (after, .error error)) :
    error.isInFlight = (d.changeset h).inFlight := by
  cases ends_of_save failed with
  | busy pending => exact pending.symm
  | noSchema free | invalid free | refused free => exact free.symm

theorem updates_of_unsent (failed : d.save h = (after, .error error))
    (unsent : error.isInFlight = true ∨ error.isValidation = true ∨
      ∃ cause, (d.ensureSchema (d.changeset h).pristine.typeHref).2 = .error cause) :
    after.server.calls.get .update = d.server.calls.get .update := by
  cases ends_of_save failed with
  | busy => rfl
  | noSchema _ asked => exact (updates_of_asked asked).1
  | invalid _ asked => exact (updates_of_asked asked).1
  | refused _ asked =>
    -- The only way to an update is through the schema.
    obtain hflight | hinvalid | ⟨cause, hcause⟩ := unsent
    · cases hflight
    · cases hinvalid
    · rw [answer_of_asked asked] at hcause
      cases hcause

/-- A save that fails leaves the edits, the form, the registry, the cache and the stored work
packages as they were, and nobody hears of it. Its flag is down again, unless it was refused for
another save that is still under way; and it has submitted nothing unless it came that far. -/
theorem failed_save_atomic (failed : d.save h = (after, .error error)) :
    d.Untouched after ∧ after.server.packages = d.server.packages ∧
      (after.changeset h).inFlight = error.isInFlight ∧
      (error.isInFlight = true ∨ error.isValidation = true ∨
          (∃ cause, (d.ensureSchema (d.changeset h).pristine.typeHref).2 = .error cause) →
        after.server.calls.get .update = d.server.calls.get .update) := by
  have huntouched := untouched_save failed
  refine ⟨huntouched, huntouched.server.packages, ?_, updates_of_unsent failed⟩
  rw [huntouched.changeset, isInFlight_of_failed failed]

end Failed

def cutOffDesk : Desk :=
  { noteDesk with
    server := noteDesk.server.failNext .update (.transport "timeout")
    hooks := [.probe "first" false, .refreshParent]
    commitSubscriptions := [1], lastCommitNumber := 1 }

/-- The update of a cleared note is cut off. The note is still to be cleared, nobody has heard of
it, and the next save clears it. -/
theorem failed_save_atomic_cut_off :
    ∃ after error, cutOffDesk.save 1 = (after, .error error) ∧ cutOffDesk.Untouched after ∧
      (after.changeset 1).inFlight = false ∧
      (after.changeset 1).changes = (∅ : Attributes).insert "note" .null ∧
      (after.save 1).2.toOption.any (·.workPackage.value "note" = .null) = true := by
  rcases hs : cutOffDesk.save 1 with ⟨after, error | commit⟩
  · have hagain : ((cutOffDesk.save 1).1.save 1).2.toOption.any
        (·.workPackage.value "note" = .null) = true := by decide +kernel
    have hedits : (cutOffDesk.changeset 1).changes = (∅ : Attributes).insert "note" .null ∧
        (cutOffDesk.changeset 1).inFlight = false := by decide +kernel
    rw [hs] at hagain
    obtain ⟨huntouched, -⟩ := failed_save_atomic hs
    rw [← huntouched.changeset] at hedits
    exact ⟨after, error, rfl, huntouched, hedits.2, hedits.1, hagain⟩
  · have hfails : (cutOffDesk.save 1).2.toOption.isSome = false := by decide +kernel
    rw [hs] at hfails
    cases hfails

end Desk

end Draftboard
