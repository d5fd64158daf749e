import Draftboard.Desk.Save
import Draftboard.Proofs.Server.Runs
/-!
# What the parts of a save leave alone

Each part of a save, with the fields of the desk that it changes.
-/

namespace Draftboard.Desk

/-! ## Change-sets -/

theorem isReported_modifyQuietly (d : Desk) (h other : Handle) (f : Changeset → Changeset) :
    (d.modifyQuietly h f).isReported other = d.isReported other := by
  simp only [isReported, modifyQuietly, Std.ExtTreeMap.getElem?_modify,
    Std.LawfulEqOrd.compare_eq_iff_eq]
  split
  · rename_i heq
    subst heq
    cases d.drafts[h]? <;> rfl
  · rfl

theorem changeset_modifyQuietly_of_ne (d : Desk) {h other : Handle} (f : Changeset → Changeset)
    (hne : h ≠ other) : (d.modifyQuietly h f).changeset other = d.changeset other := by
  simp only [changeset, modifyQuietly, Std.ExtTreeMap.getElem?_modify,
    Std.LawfulEqOrd.compare_eq_iff_eq, if_neg hne]

theorem changeset_modifyQuietly_self (d : Desk) (h : Handle) (f : Changeset → Changeset) :
    (d.modifyQuietly h f).changeset h = f (d.changeset h) ∨
      (d.modifyQuietly h f).changeset h = d.changeset h := by
  cases hd : d.drafts[h]? with
  | none => exact Or.inr (by simp [modifyQuietly, changeset, hd])
  | some draft =>
    refine Or.inl ?_
    rw [changeset_modifyQuietly d h h f (by simp [hd]), if_pos rfl]

theorem modifyQuietly_of_unknown {d : Desk} {h : Handle} (unknown : d.drafts[h]? = none)
    (f : Changeset → Changeset) : d.modifyQuietly h f = d := by
  have hdrafts : (d.drafts.modify h fun draft => { draft with changeset := f draft.changeset }) =
      d.drafts := by
    refine Std.ExtTreeMap.ext_getElem? fun k => ?_
    simp only [Std.ExtTreeMap.getElem?_modify, Std.LawfulEqOrd.compare_eq_iff_eq]
    split
    · rename_i heq
      rw [← heq, unknown, Option.map_none]
    · rfl
  rw [modifyQuietly, hdrafts]

theorem modifyQuietly_modifyQuietly (d : Desk) (h : Handle) (f g : Changeset → Changeset) :
    (d.modifyQuietly h f).modifyQuietly h g = d.modifyQuietly h fun c => g (f c) := by
  have hdrafts : ((d.modifyQuietly h f).modifyQuietly h g).drafts =
      (d.modifyQuietly h fun c => g (f c)).drafts := by
    refine Std.ExtTreeMap.ext_getElem? fun k => ?_
    simp only [modifyQuietly, Std.ExtTreeMap.getElem?_modify, Std.LawfulEqOrd.compare_eq_iff_eq]
    split
    · cases d.drafts[h]? <;> simp
    · rfl
  unfold modifyQuietly at hdrafts ⊢
  dsimp only at hdrafts ⊢
  rw [hdrafts]

theorem isSome_of_isReported {d : Desk} {h : Handle} (reported : d.isReported h = true) :
    d.drafts[h]?.isSome = true := by
  cases hd : d.drafts[h]? with
  | none => simp [isReported, hd] at reported
  | some draft => rfl

theorem pristine_modifyQuietly (d : Desk) {h : Handle} {f : Changeset → Changeset}
    (keeps : (f (d.changeset h)).pristine = (d.changeset h).pristine) (other : Handle) :
    ((d.modifyQuietly h f).changeset other).pristine = (d.changeset other).pristine := by
  by_cases heq : h = other
  · subst heq
    rcases changeset_modifyQuietly_self d h f with hc | hc <;> rw [hc]
    exact keeps
  · rw [changeset_modifyQuietly_of_ne d f heq]

theorem exists_edit {α : Type} (d : Desk) (h : Handle) (f : Changeset → Changeset × α) :
    ∃ more, (d.edit h f).1 =
      { d.modifyQuietly h fun _ => (f (d.changeset h)).1 with deliveries := d.deliveries ++ more } := by
  unfold edit
  dsimp only
  split
  · exact ⟨_, rfl⟩
  · exact ⟨[], by simp [modifyQuietly]⟩

theorem exists_reset (d : Desk) (h : Handle) :
    ∃ registry more, d.reset h =
      { d.modifyQuietly h Changeset.clear with registry, deliveries := d.deliveries ++ more } := by
  unfold reset
  dsimp only
  split
  · split
    · exact ⟨d.registry.erase (d.changeset h).id, [], by simp [modifyQuietly]⟩
    · exact ⟨_, _, rfl⟩
  · exact ⟨d.registry, [], by simp [modifyQuietly]⟩

theorem getElem?_drafts_newDraft (d : Desk) (draft : Draft) (k : Handle) :
    (d.newDraft draft).1.drafts[k]? = if d.lastHandle + 1 = k then some draft else d.drafts[k]? := by
  simp only [newDraft, Std.ExtTreeMap.getElem?_insert, Std.LawfulEqOrd.compare_eq_iff_eq]

/-! ## Fetching -/

section Fetch

variable {d : Desk} {id : PackageId} {x : Snapshot} {error : ApiError} {after : Server}

theorem load_cached (hc : d.cache.get? id = some x) : d.load id = (d, .ok x) := by
  unfold load
  rw [hc]

theorem load_fetched (hc : d.cache.get? id = none) (hf : d.server.fetch id = (.ok x, after)) :
    d.load id = (({ d with server := after } : Desk).putPackage x, .ok x) := by
  unfold load request
  rw [hc]
  dsimp only
  rw [hf]

theorem load_missing (hc : d.cache.get? id = none) (hf : d.server.fetch id = (.error error, after)) :
    d.load id = ({ d with server := after }, .error error) := by
  unfold load request
  rw [hc]
  dsimp only
  rw [hf]

theorem refetch_fetched (hf : d.server.fetch id = (.ok x, after)) :
    d.refetch id = (({ d with server := after } : Desk).putPackage x, true) := by
  unfold refetch request
  dsimp only
  rw [hf]

theorem refetch_missing (hf : d.server.fetch id = (.error error, after)) :
    d.refetch id = ({ d with server := after }, false) := by
  unfold refetch request
  dsimp only
  rw [hf]

end Fetch

/-! ## Cache and server -/

@[simp] theorem server_putPackage (d : Desk) (snapshot : Snapshot) :
    (d.putPackage snapshot).server = d.server := by
  obtain ⟨more, h⟩ := exists_putPackage d snapshot
  rw [h]

@[simp] theorem cache_putPackage (d : Desk) (snapshot : Snapshot) :
    (d.putPackage snapshot).cache = (d.cache.put snapshot).1 := by
  obtain ⟨more, h⟩ := exists_putPackage d snapshot
  rw [h]

@[simp] theorem server_putPackages (d : Desk) (snapshots : List Snapshot) :
    (d.putPackages snapshots).server = d.server := by
  unfold putPackages
  induction snapshots generalizing d with
  | nil => rfl
  | cons first rest ih => exact (ih _).trans (server_putPackage d first)

@[simp] theorem server_dropPackage (d : Desk) (id : PackageId) :
    (d.dropPackage id).server = d.server := by
  obtain ⟨more, h⟩ := exists_dropPackage d id
  rw [h]

@[simp] theorem cache_dropPackage (d : Desk) (id : PackageId) :
    (d.dropPackage id).cache = (d.cache.invalidate id).1 := by
  obtain ⟨more, h⟩ := exists_dropPackage d id
  rw [h]

@[simp] theorem server_settle (d : Desk) (h : Handle) (commit : Commit) :
    (d.settle h commit).server = d.server := by
  obtain ⟨registry, more, hr⟩ :=
    exists_reset (((d.putPackage commit.workPackage).publishCommit commit).setInFlight h false) h
  rw [settle, hr]
  exact server_putPackage d commit.workPackage

@[simp] theorem cache_settle (d : Desk) (h : Handle) (commit : Commit) :
    (d.settle h commit).cache = (d.cache.put commit.workPackage).1 := by
  obtain ⟨registry, more, hr⟩ :=
    exists_reset (((d.putPackage commit.workPackage).publishCommit commit).setInFlight h false) h
  rw [settle, hr]
  exact cache_putPackage d commit.workPackage

theorem server_writeCache (d : Desk) (write : CacheWrite) : (d.writeCache write).server = d.server := by
  cases write with
  | put snapshot => exact server_putPackage d snapshot
  | drop id => exact server_dropPackage d id

theorem server_foldl_writeCache (d : Desk) (writes : List CacheWrite) :
    (writes.foldl writeCache d).server = d.server := by
  induction writes generalizing d with
  | nil => rfl
  | cons write rest ih => exact (ih _).trans (server_writeCache d write)

theorem server_refetch (d : Desk) (parent : PackageId) :
    (d.refetch parent).1.server = d.server.perform (.fetch parent) := by
  rcases hf : d.server.fetch parent with ⟨error | fresh, after⟩
  · rw [refetch_missing hf]
    exact (congrArg Prod.snd hf).symm
  · rw [refetch_fetched hf]
    exact (server_putPackage _ _).trans (congrArg Prod.snd hf).symm

theorem server_publishEvents (d : Desk) (commit : Commit) :
    (d.publishEvents commit).server = d.server := by
  unfold publishEvents
  dsimp only
  split <;> rfl

theorem exists_server_runHook (d : Desk) (commit : Commit) (hook : Hook) :
    ∃ calls, (d.runHook commit hook).1.server = d.server.run calls ∧
      ∀ call ∈ calls, ∃ id, call = .fetch id := by
  cases hook with
  | invalidateActivity => exact ⟨[], rfl, by simp⟩
  | refreshParent =>
    cases hp : commit.workPackage.parentId? with
    | none => exact ⟨[], by simp [runHook, hp, Server.run], by simp⟩
    | some parent =>
      refine ⟨[.fetch parent], ?_, by simp⟩
      simp only [runHook, hp]
      rw [server_refetch, server_dropPackage]
      rfl
  | publishEvents => exact ⟨[], server_publishEvents d commit, by simp⟩
  | probe name fails => exact ⟨[], rfl, by simp⟩
  | custom writes fails => exact ⟨[], server_foldl_writeCache d _, by simp⟩

theorem exists_server_runHooks (d : Desk) (commit : Commit) (hooks : List Hook) :
    ∃ calls, (d.runHooks commit hooks).server = d.server.run calls ∧
      ∀ call ∈ calls, ∃ id, call = .fetch id := by
  induction hooks generalizing d with
  | nil => exact ⟨[], rfl, by simp⟩
  | cons hook rest ih =>
    obtain ⟨first, hfirst, hfetch⟩ := exists_server_runHook d commit hook
    obtain ⟨later, hlater, hfetches⟩ := ih (d.runHook commit hook).1
    refine ⟨first ++ later, ?_, ?_⟩
    · rw [Server.run_append, ← hfirst]
      exact hlater
    · intro call hcall
      rcases List.mem_append.1 hcall with hcall | hcall
      · exact hfetch call hcall
      · exact hfetches call hcall

theorem packages_runHooks (d : Desk) (commit : Commit) (hooks : List Hook) :
    (d.runHooks commit hooks).server.packages = d.server.packages := by
  obtain ⟨calls, hcalls, hfetch⟩ := exists_server_runHooks d commit hooks
  rw [hcalls, Server.packages_run_fetch _ hfetch]

end Draftboard.Desk
