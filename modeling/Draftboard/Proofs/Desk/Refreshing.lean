import Draftboard.Proofs.Desk.Works
import Draftboard.Proofs.Desk.Tallies
import Draftboard.Proofs.Desk.Previews
/-!
# What a refresh brings

After a save the rows on display are refreshed. The cache takes over what the server has for those that
have changed since the drag was let go, and the saved record and the parent that it has touched are among
them if they are on display.
-/

namespace Draftboard

namespace Server

/-! ## Changes since an instant -/

def changedSince (s : Server) (since : Instant) (id : PackageId) : Bool :=
  (s.stored? id).any fun stored => stored.updatedAt.any (since ≤ ·)

theorem changedSince_of_updatedAt {s : Server} {since now : Instant} (early : since ≤ now)
    {id : PackageId} {stored : Snapshot} (there : s.stored? id = some stored)
    (late : stored.updatedAt = some now) : s.changedSince since id = true := by
  simp [changedSince, there, late, early]

theorem exists_id_updatedSince {s s' : Server} (wellFormed : s.WellFormed) {ids : List PackageId}
    {since : Instant} {updated : List Snapshot} (answered : s.updatedSince ids since = (.ok updated, s'))
    (id : PackageId) :
    (∃ x ∈ updated, x.id = id) ↔ id ∈ ids ∧ s.changedSince since id = true := by
  rw [updatedSince_eq_ok answered]
  simp only [List.mem_filter, List.mem_filterMap]
  constructor
  · rintro ⟨x, ⟨⟨asked, hasked, hstored⟩, hlate⟩, rfl⟩
    obtain rfl : x.id = asked := wellFormed.id_eq hstored
    exact ⟨hasked, by simp [changedSince, hstored, hlate]⟩
  · rintro ⟨hasked, hchanged⟩
    obtain ⟨x, hstored, hlate⟩ := (Option.any_eq_true _ _).1 hchanged
    exact ⟨x, ⟨⟨id, hasked, hstored⟩, hlate⟩, wellFormed.id_eq hstored⟩

end Server

namespace Desk

/-! ## The cache after a refresh -/

theorem get?_putPackages {s : Server} {snapshots : List Snapshot}
    (stored : ∀ x ∈ snapshots, s.stored? x.id = some x) (d : Desk) (id : PackageId) :
    (d.putPackages snapshots).cache.get? id =
      if ∃ x ∈ snapshots, x.id = id then s.stored? id else d.cache.get? id := by
  induction snapshots generalizing d with
  | nil => simp [putPackages]
  | cons first rest ih =>
    have hfirst := stored first List.mem_cons_self
    have hrest := ih (fun x hx => stored x (List.mem_cons_of_mem _ hx)) (d.putPackage first)
    rw [cache_putPackage, PackageCache.get?_put] at hrest
    refine hrest.trans ?_
    by_cases hlater : ∃ x ∈ rest, x.id = id
    · simp [hlater]
    · by_cases hid : first.id = id
      · subst hid
        simp [hlater, hfirst]
      · simp [hlater, hid]

/-- The cache after a refresh of some ids that has succeeded. Before it a record was saved: `before` is
the server before that, and `saved` the desk after it. -/
structure Refreshes (saved : Desk) (rendered : List PackageId) (record : Snapshot) (before : Server)
    (after : Desk) : Prop where
  changed : ∀ id ∈ rendered, after.server.stored? id ≠ before.stored? id →
    after.cache.get? id = after.server.stored? id
  touched : ∀ id ∈ rendered, id = record.id ∨ record.parentId? = some id →
    (after.server.stored? id).isSome = true → after.cache.get? id = after.server.stored? id
  shown : ∀ id ∈ rendered, after.cache.get? id = saved.cache.get? id ∨
    after.cache.get? id = after.server.stored? id
  hidden : ∀ id ∉ rendered, after.cache.get? id = saved.cache.get? id

theorem Refreshes.of_eq {saved saved' after after' : Desk} {rendered : List PackageId} {record : Snapshot}
    {before : Server} (h : saved.Refreshes rendered record before after) (cache : saved'.cache = saved.cache)
    (server' : after'.server = after.server) (cache' : after'.cache = after.cache) :
    saved'.Refreshes rendered record before after' where
  changed := by rw [server', cache']; exact h.changed
  touched := by rw [server', cache']; exact h.touched
  shown := by rw [server', cache', cache]; exact h.shown
  hidden := by rw [cache', cache]; exact h.hidden

theorem get?_refreshRendered {r : Row} {d : Desk} {since : Instant} (wellFormed : d.server.WellFormed)
    {updated : List Snapshot} (answered : (d.server.updatedSince r.rendered since).1 = .ok updated)
    (commit : Commit) (id : PackageId) :
    (r.refreshRendered d commit since).cache.get? id =
      if id ∈ r.rendered ∧ d.server.changedSince since id = true then d.server.stored? id
      else d.cache.get? id := by
  have hpackages := (Server.sameStore_updatedSince d.server r.rendered since).packages
  rcases hu : d.server.updatedSince r.rendered since with ⟨error | answer, server⟩ <;>
    rw [hu] at answered hpackages
  · cases answered
  · have hstored : ∀ x ∈ answer, d.server.stored? x.id = some x := fun x hx =>
      (congrArg (·[x.id]?) hpackages).symm.trans (Server.stored_of_updatedSince wellFormed hu x hx)
    have hput := get?_putPackages hstored ({ d with server } : Desk) id
    simp only [Server.exists_id_updatedSince wellFormed hu] at hput
    rw [refreshRendered_updated commit hu]
    split <;> exact hput

end Desk

namespace Row

open Timeline

/-! ## The save of a drag -/

variable {r : Row} {d : Desk} {commit : Commit}

theorem save_of_saved (ended : (r.save d).2 = .saved commit) :
    ∃ saved told, d.readClock.1.save r.handle = (saved, .ok commit) ∧ told.server = saved.server ∧
      told.cache = saved.cache ∧ (r.save d).1 = r.refreshRendered told commit d.clock.now := by
  unfold save at ended ⊢
  rcases hs : d.readClock.1.save r.handle with ⟨saved, error | made⟩ <;> simp only [hs] at ended ⊢
  · cases ended
  · cases ended
    refine ⟨saved, if r.notifiesSuccess then saved.notify (.saved commit.id) else saved, rfl, ?_, ?_, rfl⟩
    · split <;> rfl
    · split <;> rfl

/-- The step has ended in a save. Before it there were edits of change-sets at most, and after it the
edits were dropped. -/
def Saves (r : Row) (d : Desk) (commit : Commit) (step : RowStep) : Prop :=
  ∃ (saving : Row) (dragged : Desk), saving.rendered = r.rendered ∧ d.OnlyDrafts dragged ∧
    (saving.save dragged).2 = .saved commit ∧
    step.1 = (saving.save dragged).1.reset saving.handle

theorem Saves.before {r' : Row} {dragged : Desk} {step : RowStep} (saves : r'.Saves dragged commit step)
    (rendered : r'.rendered = r.rendered) (drafts : d.OnlyDrafts dragged) : r.Saves d commit step := by
  obtain ⟨saving, later, hrendered, hdrafts, hsaved, hstep⟩ := saves
  exact ⟨saving, later, hrendered.trans rendered, drafts.trans hdrafts, hsaved, hstep⟩

theorem saves_deactivate (cancelled : Bool)
    (ended : (r.deactivate d cancelled).2.2 = some (.saved commit)) :
    r.Saves d commit (r.deactivate d cancelled) := by
  rw [deactivate_eq] at ended ⊢
  split at ended
  · cases ended
  · split at ended
    · cases ended
    · rename_i hgoes hedits
      rw [if_neg hgoes, if_neg hedits]
      exact ⟨r, d, rfl, .refl d, Option.some.inj ended, rfl⟩

theorem saves_apply {intent : Intent} (ended : (r.apply d intent).2.2 = some (.saved commit)) :
    r.Saves d commit (r.apply d intent) := by
  cases intent with
  | preview => cases ended
  | commit => exact saves_deactivate false ended
  | cancel => exact saves_deactivate true ended

theorem saves_applyAll {intents : List Intent} (few : Few intents)
    (ended : (r.applyAll d intents).2.2 = some (.saved commit)) :
    r.Saves d commit (r.applyAll d intents) := by
  cases few with
  | none => cases ended
  | one intent => exact saves_apply ended
  | shown direction days day intent =>
    have hpreview := (changes_preview r d direction days day).onlyDrafts (by decide)
    exact (saves_apply (d := r.preview d direction days day) ended).before rfl hpreview

theorem saves_on {event : Event} (ended : (r.on d event).2.2 = some (.saved commit)) :
    r.Saves d commit (r.on d event) := by
  obtain ⟨acting, begun, intents, heq, hfew, hrendered, hbegun⟩ := exists_applyAll_on r d event
  have hdrafts : d.OnlyDrafts begun := by
    rcases hbegun with rfl | rfl
    · exact .refl begun
    · exact (d.changes_changeFor _ none).onlyDrafts (by decide)
  rw [heq] at ended ⊢
  exact (saves_applyAll hfew ended).before hrendered hdrafts

/-! ## What is on display -/

theorem refreshes_refreshRendered {before : Server} {record : Snapshot} {now since : Instant} {wasNew : Bool}
    (wellFormed : d.server.WellFormed) (stores : before.Stores d.server record now wasNew)
    (late : record.updatedAt = some now) (early : since ≤ now) {updated : List Snapshot}
    (answered : (d.server.updatedSince r.rendered since).1 = .ok updated) (commit : Commit) :
    d.Refreshes r.rendered record before (r.refreshRendered d commit since) := by
  have hentry := Desk.get?_refreshRendered wellFormed answered commit
  have hstored : ∀ id, (r.refreshRendered d commit since).server.stored? id = d.server.stored? id :=
    fun id => congrArg (·[id]?) ((changes_refreshRendered r d commit since).looks (by decide) (by decide)).sameStore.packages
  have htouched : ∀ id ∈ r.rendered, id = record.id ∨ record.parentId? = some id →
      (d.server.stored? id).isSome = true →
      (r.refreshRendered d commit since).cache.get? id = d.server.stored? id := by
    intro id rendered touched there
    obtain ⟨stored, hthere⟩ := Option.isSome_iff_exists.1 there
    have hlate := stores.updatedAt_of_touched late touched hthere
    rw [hentry, if_pos ⟨rendered, Server.changedSince_of_updatedAt early hthere hlate⟩]
  constructor
  · intro id rendered changed
    rw [hstored] at changed ⊢
    obtain ⟨htouch, hthere⟩ := stores.touched_of_ne changed
    exact htouched id rendered htouch hthere
  · intro id rendered touched there
    rw [hstored] at there ⊢
    exact htouched id rendered touched there
  · intro id rendered
    rw [hentry, hstored]
    split
    · exact Or.inr rfl
    · exact Or.inl rfl
  · intro id hidden
    rw [hentry, if_neg fun h => hidden h.1]

/-- The time that counts is read before the save, so nothing that the save has changed is from before. -/
theorem refreshes_save (reached : d.server.Reachable)
    (ended : (r.save d).2 = .saved commit) :
    ∃ saved record now, d.readClock.1.save r.handle = (saved, .ok commit) ∧
      d.server.Stores (r.save d).1.server record now commit.wasNew ∧ record.id = commit.id ∧
      let answer := saved.server.updatedSince r.rendered d.clock.now
      (r.save d).1.server = answer.2 ∧
      (∀ error, answer.1 = .error error ↔ (d.server.failures.get .since).head? = some error) ∧
      ∀ updated, answer.1 = .ok updated → saved.Refreshes r.rendered record d.server (r.save d).1 := by
  obtain ⟨saved, told, hsave, hserver, hcache, hafter⟩ := save_of_saved ended
  have hends := Desk.save_ends d.readClock.1 r.handle
  rw [hsave] at hends
  have hread : d.readClock.1.server.Reachable := reached
  obtain ⟨record, hstores, hid, -, hlate⟩ := Desk.stores_save hread.wellFormed hsave
  rw [← hserver] at hstores
  refine ⟨saved, record, d.readClock.1.clock.now, hsave, ?_, hid, ?_, fun error => ?_,
    fun updated answered => ?_⟩
  · rw [hafter]
    have hlooks := (changes_refreshRendered r told commit d.clock.now).looks (by decide) (by decide)
    exact hstores.congr (.refl _) hlooks.sameStore
  · rw [hafter, Desk.server_refreshRendered, hserver]
  · rw [Server.updatedSince_fails_iff, hends.submits.since]
    rfl
  · obtain ⟨calls, hcalls⟩ := (d.readClock.1.changes_save r.handle).exists_run (by decide)
    rw [hsave] at hcalls
    have hwellFormed : told.server.WellFormed := by
      rw [hserver, show saved.server = _ from hcalls]
      exact (hread.run calls).wellFormed
    rw [← hserver] at answered
    have hrefreshes := refreshes_refreshRendered hwellFormed hstores hlate (Clock.now_le_read d.clock).1
      answered commit
    exact hrefreshes.of_eq hcache.symm (congrArg (·.server) hafter) (congrArg (·.cache) hafter)

/-- A drag that ends in a save has edited change-sets at most before it saves. If its refresh is answered,
the cache has what the server has of all that is on display and was changed by the save; of the rest that
is on display it keeps what it had or takes what the server has, and it keeps all else. The refresh is
answered unless a failure is queued for it. -/
theorem refresh_covers_save (reached : d.server.Reachable) {event : Event}
    (ended : (r.on d event).2.2 = some (.saved commit)) :
    let after := (r.on d event).1
    ∃ (dragged saved : Desk) (h : Handle) (record : Snapshot) (now : Instant),
      d.OnlyDrafts dragged ∧ dragged.readClock.1.save h = (saved, .ok commit) ∧
      d.server.Stores after.server record now commit.wasNew ∧ record.id = commit.id ∧
      let answer := saved.server.updatedSince r.rendered d.clock.now
      after.server = answer.2 ∧
      (∀ error, answer.1 = .error error ↔ (d.server.failures.get .since).head? = some error) ∧
      ∀ updated, answer.1 = .ok updated → saved.Refreshes r.rendered record d.server after := by
  intro after
  obtain ⟨saving, dragged, hrendered, hdrafts, hended, hafter⟩ := saves_on ended
  have hreached : dragged.server.Reachable := hdrafts.server ▸ reached
  have hreset := ((saving.save dragged).1.changes_reset saving.handle).onlyDrafts (by decide)
  rw [← hafter] at hreset
  have hsaves := refreshes_save hreached hended
  rw [hdrafts.server, hdrafts.clock, hrendered, ← hreset.server] at hsaves
  obtain ⟨saved, record, now, hsave, hstores, hid, hanswer, hfails, hrefreshes⟩ := hsaves
  exact ⟨dragged, saved, saving.handle, record, now, hdrafts, hsave, hstores, hid, hanswer, hfails,
    fun updated answered => (hrefreshes updated answered).of_eq rfl hreset.server hreset.cache⟩

theorem refresh_covers_save_with_parent :
    let field : FieldSchema := { writable := true, kind := .date }
    let schema : Schema :=
      { typeHref := "task"
        fields := ((∅ : TextMap FieldSchema).insert Attribute.startDate field).insert
          Attribute.dueDate field }
    let parent : Snapshot := { id := { text := "1" }, typeHref := "task" }
    let bar : Attributes :=
      ((∅ : Attributes).insert Attribute.startDate (.date (Date.shift .epoch 2))).insert
        Attribute.dueDate (.date (Date.shift .epoch 6))
    let child : Snapshot :=
      ({ id := { text := "2" }, typeHref := "task", attributes := bar } : Snapshot).withParent parent.id
    let server := ((({} : Server).insert parent).insert child).insertSchema schema
    let d := ({ server } : Desk).putPackages [parent, child]
    let made := make d { pixelsPerDay := 10.0, start := .epoch } child [parent.id, child.id]
    let pressed := made.2.on made.1 (.press .both (Cell.at .epoch 3))
    let moved := pressed.2.1.on pressed.1 (.move (Cell.at .epoch 7))
    let step := moved.2.1.on moved.1 .release
    (∃ commit, step.2.2 = some (.saved commit)) ∧
      step.1.cache.get? parent.id = some (parent.touch { seconds := 0, nanos := 1 }) ∧
      step.1.cache.get? child.id = step.1.server.stored? child.id := by
  intro field schema parent bar child server d made pressed moved step
  have hserver : server.Reachable :=
    ((Server.Reachable.empty.insert parent).insert child).insertSchema schema
  have hmade : made.1.server.Reachable :=
    (congrArg Server.Reachable (Desk.server_putPackages ({ server } : Desk) [parent, child])).mpr hserver
  have reached : moved.1.server.Reachable := by
    have hdragged := (changes_on made.2 made.1 (.press .both (Cell.at .epoch 3))).trans
      (changes_on pressed.2.1 pressed.1 (.move (Cell.at .epoch 7)))
    obtain ⟨calls, hcalls⟩ := hdragged.exists_run (by decide)
    rw [show moved.1.server = _ from hcalls]
    exact hmade.run calls
  have hsome : (step.2.2.bind Outcome.commit?).isSome = true := by decide +kernel
  have hcalm : (moved.1.server.failures.get .since).head? = none := by decide +kernel
  have hrendered : moved.2.1.rendered = [parent.id, child.id] := by decide +kernel
  have hparent : step.1.server.stored? parent.id = some (parent.touch { seconds := 0, nanos := 1 }) := by
    decide +kernel
  have hchanged : ∀ id ∈ [parent.id, child.id],
      step.1.server.stored? id ≠ moved.1.server.stored? id := by
    decide +kernel
  obtain ⟨commit, hcommit⟩ := Option.isSome_iff_exists.1 hsome
  obtain ⟨outcome, houtcome, hsaved⟩ := Option.bind_eq_some_iff.1 hcommit
  have ended : step.2.2 = some (.saved commit) := by
    rw [houtcome, Outcome.eq_saved_of_commit? hsaved]
  obtain ⟨_, saved, -, record, -, -, -, -, -, -, hfails, hrefreshes⟩ := refresh_covers_save reached ended
  rw [hcalm, hrendered] at hfails
  rw [hrendered] at hrefreshes
  cases hu : (saved.server.updatedSince [parent.id, child.id] moved.1.clock.now).1 with
  | error error => cases (hfails error).1 hu
  | ok updated =>
    have hrefreshed : saved.Refreshes [parent.id, child.id] record moved.1.server step.1 :=
      hrefreshes updated hu
    clear_value step moved
    have hcached := hrefreshed.changed
    exact ⟨⟨commit, ended⟩, (hcached _ (by simp) (hchanged _ (by simp))).trans hparent,
      hcached _ (by simp) (hchanged _ (by simp))⟩

end Row

end Draftboard
