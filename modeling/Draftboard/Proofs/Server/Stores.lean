import Draftboard.Proofs.Server.Runs
/-!
# What is stored

A request leaves all that the server stores as it is, unless it is an update or a deletion that
succeeds. An update stores one record and touches one other at most.
-/

namespace Draftboard.Server

/-! ## Nothing stored -/

theorem sameStore_run_fetch (s : Server) {calls : List Call}
    (fetches : ∀ call ∈ calls, ∃ id, call = .fetch id) : s.SameStore (s.run calls) := by
  induction calls generalizing s with
  | nil => exact .refl s
  | cons call rest ih =>
    obtain ⟨id, rfl⟩ := fetches _ List.mem_cons_self
    exact (sameStore_fetch s id).trans (ih _ fun later hlater => fetches later (List.mem_cons_of_mem _ hlater))

/-! ## Deletions -/

theorem sameStore_of_deleteAttachment {s s' : Server} {a : Attachment} {error : ApiError}
    (failed : s.deleteAttachment a = (.error error, s')) : s.SameStore s' := by
  have hbegin := sameStore_begin s .delete
  unfold deleteAttachment request at failed
  rcases hs : s.begin .delete with ⟨_ | queued, counted⟩ <;> rw [hs] at failed hbegin
  · dsimp only at failed
    split at failed <;> cases failed
    exact hbegin
  · cases failed
    exact hbegin

/-- One attachment has gone, and that is all. -/
structure Loses (s s' : Server) (attachment : String) : Prop where
  stored : attachment ∈ s.attachments
  attachments : s'.attachments = s.attachments.erase attachment
  packages : s'.packages = s.packages

theorem loses_of_deleteAttachment {s s' : Server} {a : Attachment}
    (deleted : s.deleteAttachment a = (.ok (), s')) : s.Loses s' a.id := by
  have hbegin := sameStore_begin s .delete
  unfold deleteAttachment request at deleted
  rcases hs : s.begin .delete with ⟨_ | queued, counted⟩ <;> rw [hs] at deleted hbegin
  · dsimp only at deleted
    split at deleted <;> cases deleted
    rename_i hmem
    exact ⟨hbegin.attachments ▸ hmem, congrArg (·.erase a.id) hbegin.attachments, hbegin.packages⟩
  · cases deleted

/-! ## Updates -/

/-- What a save changes in the store. `saved` is the record that it leaves: a new one under the next id,
or the next version of the one that was there. The parent that the record names is touched. -/
structure Stores (s s' : Server) (saved : Snapshot) (now : Instant) (wasNew : Bool) : Prop where
  record : s'.stored? saved.id = some saved
  created : wasNew = true → saved.id = .ofNumber (nextCount s.lastId) ∧ saved.lockVersion = 0
  next : wasNew = false → ∃ before, s.stored? saved.id = some before ∧
    saved.lockVersion = nextCount before.lockVersion
  parent : ∀ id, id ≠ saved.id → saved.parentId? = some id →
    s'.stored? id = (s.stored? id).map (·.touch now)
  others : ∀ id, id ≠ saved.id → saved.parentId? ≠ some id → s'.stored? id = s.stored? id
  attachments : s'.attachments = s.attachments
  lastId : s'.lastId = if wasNew then nextCount s.lastId else s.lastId

theorem stores_of_update {s s' : Server} (wellFormed : s.WellFormed) {now : Instant}
    {pristine saved : Snapshot} {payload : Payload}
    (sent : s.update now pristine payload = (.ok saved, s')) :
    s.Stores s' saved now pristine.isNew := by
  obtain ⟨-, hrecord, -⟩ := update_eq_ok sent
  have hid := saved_id wellFormed hrecord
  have hlook := packages_of_update_eq_ok sent
  refine
    { record := (hlook saved.id).trans (if_pos rfl)
      created := fun hnew => ?_
      next := fun hold => ?_
      parent := fun id hne hparent => ?_
      others := fun id hne hparent => ?_
      attachments := ?_
      lastId := lastId_of_update_eq_ok sent }
  · rw [hnew, if_pos rfl] at hid
    exact ⟨hid, congrArg (·.lockVersion) (saved_of_isNew hnew hrecord)⟩
  · obtain ⟨before, hbefore, -, rfl⟩ := saved_of_stored hold hrecord
    rw [hold, if_neg Bool.false_ne_true] at hid
    rw [hid]
    exact ⟨before, hbefore, rfl⟩
  · exact (hlook id).trans (by rw [if_neg hne.symm, if_pos hparent]; rfl)
  · exact (hlook id).trans (by rw [if_neg hne.symm, if_neg hparent]; rfl)
  · obtain ⟨packages, rfl⟩ := exists_of_update_eq_ok sent
    exact (sameStore_begin s .update).attachments

theorem Stores.fresh {s s' : Server} {saved : Snapshot} {now : Instant} {wasNew : Bool}
    (h : s.Stores s' saved now wasNew) (ids : s.IdsInOrder) (room : s.lastId + 1 < UInt64.size)
    (created : wasNew = true) : s.stored? saved.id = none := by
  rw [(h.created created).1]
  exact packages_next ids room

theorem Stores.isSome_stored? {s s' : Server} {saved : Snapshot} {now : Instant} {wasNew : Bool}
    (h : s.Stores s' saved now wasNew) (id : PackageId) :
    (s'.stored? id).isSome ↔ (s.stored? id).isSome ∨ saved.id = id := by
  by_cases hid : id = saved.id
  · simp [hid, h.record]
  · have hkept : (s'.stored? id).isSome = (s.stored? id).isSome := by
      by_cases hparent : saved.parentId? = some id
      · rw [h.parent id hid hparent, Option.isSome_map]
      · rw [h.others id hid hparent]
    simp [hkept, Ne.symm hid]

theorem Stores.kept {s s' : Server} {saved : Snapshot} {now : Instant} {wasNew : Bool}
    (h : s.Stores s' saved now wasNew) {id : PackageId} (other : id ≠ saved.id) {stored : Snapshot}
    (there : s.stored? id = some stored) :
    s'.stored? id = some stored ∨
      saved.parentId? = some id ∧ ∃ now, s'.stored? id = some (stored.touch now) := by
  by_cases hparent : saved.parentId? = some id
  · refine Or.inr ⟨hparent, now, ?_⟩
    rw [h.parent id other hparent, there, Option.map_some]
  · exact Or.inl ((h.others id other hparent).trans there)

theorem Stores.updatedAt_of_touched {s s' : Server} {saved : Snapshot} {now : Instant} {wasNew : Bool}
    (h : s.Stores s' saved now wasNew) (late : saved.updatedAt = some now) {id : PackageId}
    (touched : id = saved.id ∨ saved.parentId? = some id) {stored : Snapshot}
    (there : s'.stored? id = some stored) : stored.updatedAt = some now := by
  by_cases hid : id = saved.id
  · rw [hid, h.record] at there
    rw [← Option.some.inj there]
    exact late
  · rw [h.parent id hid (touched.resolve_left hid)] at there
    obtain ⟨before, -, rfl⟩ := Option.map_eq_some_iff.1 there
    rfl

theorem Stores.touched_of_ne {s s' : Server} {saved : Snapshot} {now : Instant} {wasNew : Bool}
    (h : s.Stores s' saved now wasNew) {id : PackageId} (changed : s'.stored? id ≠ s.stored? id) :
    (id = saved.id ∨ saved.parentId? = some id) ∧ (s'.stored? id).isSome = true := by
  constructor
  · refine Decidable.byContradiction fun htouched => ?_
    rw [not_or] at htouched
    exact changed (h.others id htouched.1 htouched.2)
  · -- What was stored before is stored still, so it cannot have been missing from both.
    refine Decidable.byContradiction fun hmissing => changed ?_
    have hbefore : ¬(s.stored? id).isSome = true := fun there =>
      hmissing ((h.isSome_stored? id).2 (Or.inl there))
    rw [Option.not_isSome_iff_eq_none] at hmissing hbefore
    exact hmissing.trans hbefore.symm

theorem Stores.congr {s t t' s' : Server} {saved : Snapshot} {now : Instant} {wasNew : Bool}
    (before : s.SameStore t) (stores : t.Stores t' saved now wasNew) (after : t'.SameStore s') :
    s.Stores s' saved now wasNew := by
  have hbefore : ∀ id, t.stored? id = s.stored? id := fun id => congrArg (·[id]?) before.packages
  have hafter : ∀ id, s'.stored? id = t'.stored? id := fun id => congrArg (·[id]?) after.packages
  refine
    { record := (hafter _).trans stores.record
      created := fun hnew => by rw [← before.lastId]; exact stores.created hnew
      next := fun hold => ?_
      parent := fun id hne hparent => ?_
      others := fun id hne hparent => ?_
      attachments := after.attachments.trans (stores.attachments.trans before.attachments)
      lastId := by rw [after.lastId, stores.lastId, before.lastId] }
  · rw [← hbefore]
    exact stores.next hold
  · rw [hafter, ← hbefore]
    exact stores.parent id hne hparent
  · rw [hafter, ← hbefore]
    exact stores.others id hne hparent

end Draftboard.Server
