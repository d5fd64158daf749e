import Draftboard.Proofs.Desk.Changes
/-!
# What has no change-set at hand

The cache, the schemas, the views, the hooks and the server leave all change-sets and their
registrations alone. Nothing but subscribing to commits changes who is subscribed to them.
-/

namespace Draftboard

def Part.bystanding : List Part :=
  [.asked, .stored, .elsewhere, .clock, .cache, .schemas, .activity, .watchers, .pushes, .deliveries,
    .events, .notices]

namespace Desk

/-! ## What stays -/

/-- Cached snapshots stand under their own ids. -/
def Keyed (d : Desk) : Prop := ∀ (id : PackageId) (x : Snapshot), d.cache.get? id = some x → x.id = id

theorem Keyed.congr {d d' : Desk} (h : d.Keyed) (entries : d'.cache.entries = d.cache.entries) :
    d'.Keyed := by
  intro id x hx
  rw [PackageCache.get?, entries] at hx
  exact h id x hx

/-- Hooks and commit subscribers are as they were, and the cache is in order if it was. -/
structure KeepsHouse (d d' : Desk) : Prop where
  hooks : d'.hooks = d.hooks
  commitSubscriptions : d'.commitSubscriptions = d.commitSubscriptions
  lastCommitNumber : d'.lastCommitNumber = d.lastCommitNumber
  keyed : d.Keyed → d'.Keyed

theorem KeepsHouse.of_eq {d d' : Desk} (hooks : d'.hooks = d.hooks)
    (commitSubscriptions : d'.commitSubscriptions = d.commitSubscriptions)
    (lastCommitNumber : d'.lastCommitNumber = d.lastCommitNumber)
    (entries : d'.cache.entries = d.cache.entries) : d.KeepsHouse d' :=
  ⟨hooks, commitSubscriptions, lastCommitNumber, fun keyed => keyed.congr entries⟩

theorem KeepsHouse.trans {first middle last : Desk} (h : first.KeepsHouse middle)
    (h' : middle.KeepsHouse last) : first.KeepsHouse last where
  hooks := h'.hooks.trans h.hooks
  commitSubscriptions := h'.commitSubscriptions.trans h.commitSubscriptions
  lastCommitNumber := h'.lastCommitNumber.trans h.lastCommitNumber
  keyed keyed := h'.keyed (h.keyed keyed)

structure SameDrafts (d d' : Desk) : Prop where
  drafts : d'.drafts = d.drafts
  lastHandle : d'.lastHandle = d.lastHandle

theorem SameDrafts.refl (d : Desk) : d.SameDrafts d := ⟨rfl, rfl⟩

theorem SameDrafts.trans {first middle last : Desk} (h : first.SameDrafts middle)
    (h' : middle.SameDrafts last) : first.SameDrafts last :=
  ⟨h'.drafts.trans h.drafts, h'.lastHandle.trans h.lastHandle⟩

theorem SameDrafts.changeset {d d' : Desk} (h : d.SameDrafts d') (k : Handle) :
    d'.changeset k = d.changeset k := by
  unfold Desk.changeset
  rw [h.drafts]

/-- Change-sets, registrations, hooks and commit subscribers are as they were. -/
structure Bystands (d d' : Desk) : Prop extends SameDrafts d d', KeepsHouse d d' where
  registry : d'.registry = d.registry

theorem Bystands.trans {first middle last : Desk} (h : first.Bystands middle)
    (h' : middle.Bystands last) : first.Bystands last where
  toSameDrafts := h.toSameDrafts.trans h'.toSameDrafts
  toKeepsHouse := h.toKeepsHouse.trans h'.toKeepsHouse
  registry := h'.registry.trans h.registry

theorem Bystands.refl (d : Desk) : d.Bystands d :=
  ⟨.refl d, ⟨rfl, rfl, rfl, id⟩, rfl⟩

/-! ## What changes of each kind leave alone -/

section Changes

variable {d d' : Desk}

theorem keyed_putPackage (keyed : d.Keyed) (x : Snapshot) : (d.putPackage x).Keyed := by
  intro id found hfound
  rw [cache_putPackage, PackageCache.get?_put] at hfound
  split at hfound
  · rename_i heq
    rw [← Option.some.inj hfound]
    exact heq
  · exact keyed id found hfound

theorem keyed_dropPackage (keyed : d.Keyed) (id : PackageId) : (d.dropPackage id).Keyed := by
  intro other found hfound
  rw [cache_dropPackage, PackageCache.get?_invalidate] at hfound
  split at hfound
  · cases hfound
  · exact keyed other found hfound

theorem Change.keepsHouse {part : Part} (change : d.Change part d') : d.KeepsHouse d' := by
  cases change with
  | put x =>
    have hkeyed := fun keyed : d.Keyed => keyed_putPackage keyed x
    obtain ⟨more, heq⟩ := exists_putPackage d x
    rw [heq] at hkeyed ⊢
    exact ⟨rfl, rfl, rfl, hkeyed⟩
  | drop id =>
    have hkeyed := fun keyed : d.Keyed => keyed_dropPackage keyed id
    obtain ⟨more, heq⟩ := exists_dropPackage d id
    rw [heq] at hkeyed ⊢
    exact ⟨rfl, rfl, rfl, hkeyed⟩
  | watch views cache entries => exact .of_eq rfl rfl rfl entries
  | _ => exact .of_eq rfl rfl rfl rfl

theorem Changes.keepsHouse {parts : List Part} (changes : d.Changes parts d') : d.KeepsHouse d' :=
  changes.lift (fun _ => .of_eq rfl rfl rfl rfl) .trans fun _ change => change.keepsHouse

theorem Change.bystands {part : Part} (mem : part ∈ Part.bystanding) (change : d.Change part d') :
    d.Bystands d' := by
  have house := change.keepsHouse
  cases change with
  | edit | flag | draft | file | unfile => exact absurd mem (by decide)
  | put x =>
    obtain ⟨more, heq⟩ := exists_putPackage d x
    rw [heq] at house ⊢
    exact ⟨⟨rfl, rfl⟩, house, rfl⟩
  | drop id =>
    obtain ⟨more, heq⟩ := exists_dropPackage d id
    rw [heq] at house ⊢
    exact ⟨⟨rfl, rfl⟩, house, rfl⟩
  | _ => exact ⟨⟨rfl, rfl⟩, house, rfl⟩

theorem Changes.bystands {parts : List Part} (changes : d.Changes parts d')
    (within : parts ⊆ Part.bystanding) : d.Bystands d' :=
  changes.lift .refl .trans fun mem change => change.bystands (within mem)

end Changes

/-! ## Operations with no change-set at hand -/

theorem changeForId_ends (d : Desk) (id : PackageId) :
    d.Bystands (d.changeForId id).1 ∨ ∃ ready snapshot, d.Bystands ready ∧
      (d.changeForId id).1 = (ready.changeFor snapshot none).1 := by
  have hload := (changes_load d id).bystands (by decide)
  unfold changeForId
  rcases hl : d.load id with ⟨loaded, error | snapshot⟩ <;> rw [hl] at hload
  · exact Or.inl hload
  · have hschema := hload.trans ((changes_ensureSchema loaded snapshot.typeHref).bystands (by decide))
    dsimp only at hschema ⊢
    rcases hs : loaded.ensureSchema snapshot.typeHref with ⟨ready, error | schema⟩ <;>
      rw [hs] at hschema
    · exact Or.inl hschema
    · exact Or.inr ⟨ready, snapshot, hschema, rfl⟩

theorem bystands_published (d : Desk) (commit : Commit) :
    d.Bystands ((d.putPackage commit.workPackage).publishCommit commit) :=
  ((Change.put _).changes.append (Change.tell commit).changes).bystands (by decide)

end Desk

end Draftboard
