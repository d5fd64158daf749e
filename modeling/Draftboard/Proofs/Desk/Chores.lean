import Mathlib.Logic.Relation
import Draftboard.Desk.Editing
import Draftboard.Proofs.Server.Stores
import Draftboard.Proofs.Desk.Failures
import Draftboard.Proofs.Desk.Filing
import Draftboard.Proofs.Desk.RowsInStep
/-!
# Chores

What is done on a desk between one save and the next. Chores may ask the server, but nothing is stored
by them.
-/

namespace Draftboard

theorem Server.OnlyAsked.sameStore {s s' : Server} (h : s.OnlyAsked s') : s.SameStore s' := by
  obtain ⟨calls, failures, heq⟩ := h.eq
  rw [heq]
  exact ⟨rfl, rfl, rfl, rfl⟩

/-- What may change between a save and the next. -/
def Part.chores : List Part :=
  [.asked, .clock, .cache, .schemas, .edits, .flags, .drafts, .filed, .unfiled, .pushes, .notices]

namespace Desk

/-- A part of a step that stores nothing on the server and publishes no event. -/
inductive Chore : Desk → Desk → Prop
  | load (d : Desk) (id : PackageId) : Chore d (d.load id).1
  | ensureSchema (d : Desk) (typeHref : String) : Chore d (d.ensureSchema typeHref).1
  | changeFor {d : Desk} {x : Snapshot} (atHand : x.isNew = true ∨ d.cache.get? x.id = some x)
      (form : Option Form) : Chore d (d.changeFor x form).1
  | detached (d : Desk) (x : Snapshot) :
      Chore d (d.newDraft { changeset := { pristine := x }, reported := false }).1
  | edit {d : Desk} {α : Type} {h : Handle} {f : Changeset → Changeset × α}
      (keeps : (f (d.changeset h)).1.pristine = (d.changeset h).pristine) : Chore d (d.edit h f).1
  | reset (d : Desk) (h : Handle) : Chore d (d.reset h)
  | stopEditing (d : Desk) (id : PackageId) : Chore d (d.stopEditing id)
  | failedSave {d after : Desk} {h : Handle} {error : EditError}
      (failed : d.save h = (after, .error error)) : Chore d after
  | failedRemoval {d after : Desk} {l l' : AttachmentList} {a : Attachment}
      (failed : d.removeAttachment l a = (after, l', false)) : Chore d after
  | notify (d : Desk) (notice : Notice) : Chore d (d.notify notice)
  | readClock (d : Desk) : Chore d d.readClock.1

abbrev Chores : Desk → Desk → Prop := Relation.ReflTransGen Chore

inductive Aftermath : Desk → Desk → Prop
  | chore {d d' : Desk} (chore : d.Chore d') : Aftermath d d'
  | refresh (d : Desk) (r : Row) (commit : Commit) (since : Instant) :
      Aftermath d (r.refreshRendered d commit since)

abbrev WindsUp : Desk → Desk → Prop := Relation.ReflTransGen Aftermath

theorem Chores.windsUp {d d' : Desk} (chores : d.Chores d') : d.WindsUp d' :=
  chores.lift id fun _ _ => .chore

/-! ## The server -/

/-- The server has been asked, and it stores what it stored before. -/
structure Looks (d d' : Desk) : Prop where
  asks : d.Asks d'
  sameStore : d.server.SameStore d'.server

theorem Looks.of_server_eq {d d' : Desk} (h : d'.server = d.server) : d.Looks d' :=
  ⟨.of_server_eq h, h ▸ .refl d.server⟩

theorem Looks.trans {first middle last : Desk} (h : first.Looks middle) (h' : middle.Looks last) :
    first.Looks last :=
  ⟨h.asks.trans h'.asks, h.sameStore.trans h'.sameStore⟩

theorem Change.looks {d d' : Desk} {part : Part} (change : d.Change part d') (unstored : part ≠ .stored)
    (ours : part ≠ .elsewhere) : d.Looks d' := by
  refine ⟨change.exists_run ours, ?_⟩
  cases change with
  | ask same => exact same
  | store => exact absurd rfl unstored
  | replace => exact absurd rfl ours
  | put x => exact server_putPackage d x ▸ .refl _
  | drop id => exact server_dropPackage d id ▸ .refl _
  | _ => exact .refl d.server

theorem Changes.looks {d d' : Desk} {parts : List Part} (changes : d.Changes parts d')
    (unstored : .stored ∉ parts) (ours : .elsewhere ∉ parts) : d.Looks d' :=
  changes.lift (fun _ => .of_server_eq rfl) .trans fun mem change =>
    change.looks (ne_of_mem_of_not_mem mem unstored) (ne_of_mem_of_not_mem mem ours)

/-! ## What chores change -/

theorem exists_failedRemoval {d after : Desk} {l l' : AttachmentList} {a : Attachment}
    (failed : d.removeAttachment l a = (after, l', false)) :
    ∃ error server notice, d.server.deleteAttachment a = (.error error, server) ∧
      after = ({ d with server } : Desk).notify notice := by
  unfold removeAttachment request at failed
  rcases hd : d.server.deleteAttachment a with ⟨error | done, server⟩ <;> simp only [hd] at failed
  · cases failed
    exact ⟨error, server, _, rfl, rfl⟩
  · cases failed

theorem Chore.changes {d d' : Desk} (chore : d.Chore d') : d.Changes Part.chores d' := by
  cases chore with
  | load id => exact (changes_load d id).mono (by decide)
  | ensureSchema typeHref => exact (changes_ensureSchema d typeHref).mono (by decide)
  | changeFor atHand form => exact (changes_changeFor ..).mono (by decide)
  | detached x => exact (changes_newDraft ..).mono (by decide)
  | edit keeps => exact (changes_rewrite d keeps).edit.mono (by decide)
  | reset h => exact (changes_reset d h).mono (by decide)
  | stopEditing id => exact (changes_stopEditing d id).mono (by decide)
  | failedSave failed => exact (changes_failedSave failed).mono (by decide)
  | @failedRemoval _ _ _ a failed =>
    obtain ⟨error, server, notice, hdelete, rfl⟩ := exists_failedRemoval failed
    have hserver : d.server.perform (.deleteAttachment a) = server := congrArg Prod.snd hdelete
    have hask := Change.ask (d := d) (hserver ▸ Server.sameStore_of_deleteAttachment hdelete)
    rw [hserver] at hask
    exact (hask.changes.append (Change.notify notice).changes).mono (by decide)
  | notify notice => exact (Change.notify notice).changes.mono (by decide)
  | readClock => exact Change.tick.changes.mono (by decide)

theorem Chores.changes {d d' : Desk} (chores : d.Chores d') : d.Changes Part.chores d' := by
  induction chores with
  | refl => exact .refl _ d
  | tail _ chore ih => exact ih.trans chore.changes

theorem Aftermath.changes {d d' : Desk} (after : d.Aftermath d') :
    d.Changes (.events :: Part.chores) d' := by
  cases after with
  | chore chore => exact chore.changes.mono (List.subset_cons_self ..)
  | refresh r commit since => exact (r.changes_refreshRendered d commit since).mono (by decide)

theorem WindsUp.changes {d d' : Desk} (rest : d.WindsUp d') : d.Changes (.events :: Part.chores) d' := by
  induction rest with
  | refl => exact .refl _ d
  | tail _ after ih => exact ih.trans after.changes

theorem Chores.looks {d d' : Desk} (chores : d.Chores d') : d.Looks d' :=
  chores.changes.looks (by decide) (by decide)

theorem WindsUp.looks {d d' : Desk} (rest : d.WindsUp d') : d.Looks d' :=
  rest.changes.looks (by decide) (by decide)

section Refresh

variable {r : Row} {d : Desk} {since : Instant} {server : Server}

theorem refreshRendered_failed {error : ApiError} (commit : Commit)
    (hu : d.server.updatedSince r.rendered since = (.error error, server)) :
    r.refreshRendered d commit since =
      ({ d with server } : Desk).notify (.ofError (.api error) r.workPackage.id) := by
  unfold Row.refreshRendered request
  dsimp only
  rw [hu]

theorem refreshRendered_updated {updated : List Snapshot} (commit : Commit)
    (hu : d.server.updatedSince r.rendered since = (.ok updated, server)) :
    r.refreshRendered d commit since =
      if r.publishesEvents then
        (({ d with server } : Desk).putPackages updated).publishEvent (.updated commit.id)
      else ({ d with server } : Desk).putPackages updated := by
  unfold Row.refreshRendered request
  dsimp only
  rw [hu]

end Refresh

theorem server_refreshRendered (r : Row) (d : Desk) (commit : Commit) (since : Instant) :
    (r.refreshRendered d commit since).server = (d.server.updatedSince r.rendered since).2 := by
  rcases hu : d.server.updatedSince r.rendered since with ⟨error | updated, server⟩
  · rw [refreshRendered_failed commit hu]
    rfl
  · rw [refreshRendered_updated commit hu]
    split <;> exact server_putPackages _ updated

theorem stores_save {d after : Desk} {h : Handle} {commit : Commit} (wellFormed : d.server.WellFormed)
    (saved : d.save h = (after, .ok commit)) :
    ∃ record, d.server.Stores after.server record d.clock.now commit.wasNew ∧ record.id = commit.id ∧
      record.lockVersion = commit.workPackage.lockVersion ∧ record.updatedAt = some d.clock.now := by
  cases ends_of_save saved with
  | @done ready schema payload record server free asked built sent =>
    have hasked : d.server.SameStore ready.server := by
      rcases server_of_asked asked with hserver | hserver <;> rw [hserver]
      · exact .refl _
      · exact Server.sameStore_fetchSchema ..
    rw [clock_of_asked asked] at sent
    have hstores := Server.stores_of_update (wellFormed.congr hasked.packages) sent
    obtain ⟨calls, hcalls, hfetch⟩ := exists_server_runHooks
      ((ready.answered server).settle h ((d.changeset h).commit record))
      ((d.changeset h).commit record) d.hooks
    have hhooks := Server.sameStore_run_fetch server hfetch
    refine ⟨record, hstores.congr hasked ?_, rfl, rfl, ?_⟩
    · rw [hcalls, server_settle]
      exact hhooks
    · exact Server.updatedAt_of_savedRecord (Server.update_eq_ok sent).2.1

theorem exists_record {d after : Desk} {h : Handle} {commit : Commit}
    (saved : d.save h = (after, .ok commit)) :
    ∃ schema payload record, ∃ (server : Server) (now : Instant),
      (d.changeset h).buildPayload schema = .ok payload ∧
      server.savedRecord now (d.changeset h).pristine payload = .ok record ∧
      commit = (d.changeset h).commit record ∧ after.server.stored? commit.id = some record := by
  cases ends_of_save saved with
  | @done ready schema payload record server free asked built sent =>
    have hrecord := (Server.packages_of_update_eq_ok sent record.id).trans (if_pos rfl)
    obtain ⟨calls, hcalls, hfetches⟩ := exists_server_runHooks
      ((ready.answered server).settle h ((d.changeset h).commit record))
      ((d.changeset h).commit record) d.hooks
    have hhooks := (Server.sameStore_run_fetch server hfetches).packages
    refine ⟨schema, payload, record, ready.server, ready.clock.now, built,
      (Server.update_eq_ok sent).2.1, rfl, ?_⟩
    rw [hcalls, server_settle]
    exact (congrArg (·[record.id]?) hhooks).trans hrecord

/-! ## The desk in order -/

structure Sound (d : Desk) : Prop where
  reached : d.server.Reachable
  numbered : d.Numbered
  filed : d.Filed

theorem Changes.sound {d d' : Desk} {parts : List Part} (changes : d.Changes parts d')
    (ours : .elsewhere ∉ parts) (sound : d.Sound) : d'.Sound := by
  obtain ⟨calls, hcalls⟩ := changes.asks ours
  exact ⟨hcalls ▸ sound.reached.run calls, changes.numbered sound.numbered,
    (changes.keepsOrder sound.numbered).filed sound.filed⟩

theorem Chores.sound {d d' : Desk} (chores : d.Chores d') (sound : d.Sound) : d'.Sound :=
  chores.changes.sound (by decide) sound

end Desk

end Draftboard
