import Draftboard.Proofs.Desk.Bystanders
/-!
# Change-sets stay what they are based on

Only starting to edit puts change-sets on the desk and into the registry. Everything else leaves each
change-set with the snapshot it is based on.
-/

namespace Draftboard.Desk

/-- No change-set comes or goes or changes its snapshot, and none is registered that was not. -/
structure KeepsDrafts (d d' : Desk) : Prop where
  hooks : d'.hooks = d.hooks
  drafts : ∀ h : Handle,
    d'.drafts[h]?.map (·.changeset.pristine) = d.drafts[h]?.map (·.changeset.pristine)
  registry : ∀ {id : PackageId} {h : Handle}, d'.registry[id]? = some h → d.registry[id]? = some h

theorem KeepsDrafts.of_eq {d d' : Desk} (hooks : d'.hooks = d.hooks) (drafts : d'.drafts = d.drafts)
    (registry : d'.registry = d.registry) : d.KeepsDrafts d' where
  hooks := hooks
  drafts h := by rw [drafts]
  registry hr := by rw [← registry]; exact hr

theorem Bystands.keepsDrafts {d d' : Desk} (h : d.Bystands d') : d.KeepsDrafts d' :=
  .of_eq h.hooks h.drafts h.registry

theorem KeepsDrafts.trans {first middle last : Desk} (h : first.KeepsDrafts middle)
    (h' : middle.KeepsDrafts last) : first.KeepsDrafts last where
  hooks := h'.hooks.trans h.hooks
  drafts k := (h'.drafts k).trans (h.drafts k)
  registry hr := h.registry (h'.registry hr)

theorem KeepsDrafts.isSome {d d' : Desk} (keeps : d.KeepsDrafts d') (h : Handle) :
    d'.drafts[h]?.isSome = d.drafts[h]?.isSome := by
  have hsome := congrArg Option.isSome (keeps.drafts h)
  rwa [Option.isSome_map, Option.isSome_map] at hsome

theorem KeepsDrafts.pristine {d d' : Desk} (keeps : d.KeepsDrafts d') (h : Handle) :
    (d'.changeset h).pristine = (d.changeset h).pristine := by
  have hread : ∀ d : Desk, (d.changeset h).pristine =
      (d.drafts[h]?.map (·.changeset.pristine)).getD (default : Changeset).pristine := by
    intro d
    unfold changeset
    cases d.drafts[h]? <;> rfl
  rw [hread, hread, keeps.drafts]

theorem keepsDrafts_modifyQuietly (d : Desk) {h : Handle} {f : Changeset → Changeset}
    (keeps : (f (d.changeset h)).pristine = (d.changeset h).pristine) :
    d.KeepsDrafts (d.modifyQuietly h f) where
  hooks := rfl
  drafts k := by
    simp only [modifyQuietly, Std.ExtTreeMap.getElem?_modify, Std.LawfulEqOrd.compare_eq_iff_eq]
    split
    · rename_i heq
      subst heq
      cases hd : d.drafts[h]? with
      | none => rfl
      | some draft =>
        have hc : d.changeset h = draft.changeset := by simp [changeset, hd]
        rw [hc] at keeps
        simp [keeps]
    · rfl
  registry hr := hr

theorem keepsDrafts_erase (d : Desk) (id : PackageId) :
    d.KeepsDrafts { d with registry := d.registry.erase id } where
  hooks := rfl
  drafts _ := rfl
  registry hr := by
    rw [Std.ExtTreeMap.getElem?_erase] at hr
    split at hr
    · cases hr
    · exact hr

section Changes

variable {d d' : Desk} {part : Part} {parts : List Part}

theorem Change.keepsDrafts (change : d.Change part d') (undrafted : part ≠ .drafts)
    (unfiled : part ≠ .filed) : d.KeepsDrafts d' := by
  by_cases bystanding : part ∈ Part.bystanding
  · exact (change.bystands bystanding).keepsDrafts
  · cases change with
    | edit h pristine inFlight => exact keepsDrafts_modifyQuietly d pristine
    | flag h inFlight => exact keepsDrafts_modifyQuietly d rfl
    | unfile id => exact keepsDrafts_erase d id
    | draft => exact absurd rfl undrafted
    | file => exact absurd rfl unfiled
    | _ => exact absurd (by decide) bystanding

theorem Changes.keepsDrafts (changes : d.Changes parts d') (undrafted : .drafts ∉ parts)
    (unfiled : .filed ∉ parts) : d.KeepsDrafts d' :=
  changes.lift (fun d => (Bystands.refl d).keepsDrafts) .trans fun mem change =>
    change.keepsDrafts (ne_of_mem_of_not_mem mem undrafted) (ne_of_mem_of_not_mem mem unfiled)

theorem Change.registry_eq (change : d.Change part d') (unfiled : part ≠ .filed)
    (filed : part ≠ .unfiled) : d'.registry = d.registry := by
  by_cases bystanding : part ∈ Part.bystanding
  · exact (change.bystands bystanding).registry
  · cases change with
    | file => exact absurd rfl unfiled
    | unfile => exact absurd rfl filed
    | edit | flag | draft => rfl
    | _ => exact absurd (by decide) bystanding

theorem Changes.registry_eq (changes : d.Changes parts d') (unfiled : .filed ∉ parts)
    (filed : .unfiled ∉ parts) : d'.registry = d.registry :=
  changes.lift (R := fun d d' => d'.registry = d.registry) (fun _ => rfl)
    (fun first later => later.trans first) fun mem change =>
    change.registry_eq (ne_of_mem_of_not_mem mem unfiled) (ne_of_mem_of_not_mem mem filed)

end Changes

end Draftboard.Desk
