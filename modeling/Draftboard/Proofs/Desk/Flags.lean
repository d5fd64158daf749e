import Draftboard.Proofs.Desk.Bystanders
import Draftboard.Proofs.Desk.Screens
/-!
# Flags

A save raises the flag of its change-set and lowers it again. Nothing else that is done on a desk
moves a flag.
-/

namespace Draftboard.Desk

/-! ## Flags left alone -/

/-- Handles are given out in order, so the next one names no change-set yet. -/
def Numbered (d : Desk) : Prop := ∀ {h : Handle}, d.drafts[h]?.isSome = true → h ≤ d.lastHandle

/-- No flag has moved. A change-set that was added has its flag down. -/
structure KeepsFlags (d d' : Desk) : Prop where
  numbered : d'.Numbered
  inFlight : ∀ h, (d'.changeset h).inFlight = (d.changeset h).inFlight

theorem KeepsFlags.trans {first middle last : Desk} (h : first.KeepsFlags middle)
    (h' : middle.KeepsFlags last) : first.KeepsFlags last :=
  ⟨h'.numbered, fun k => (h'.inFlight k).trans (h.inFlight k)⟩

theorem SameDrafts.keepsFlags {d d' : Desk} (h : d.SameDrafts d') (numbered : d.Numbered) :
    d.KeepsFlags d' where
  numbered known := by
    rw [h.drafts] at known
    rw [h.lastHandle]
    exact numbered known
  inFlight k := by rw [h.changeset]

theorem changeset_of_unknown {d : Desk} {h : Handle} (unknown : d.drafts[h]? = none) :
    d.changeset h = default := by
  rw [changeset, unknown]
  rfl

theorem known_of_inFlight {d : Desk} {h : Handle} (raised : (d.changeset h).inFlight = true) :
    d.drafts[h]?.isSome = true := by
  cases hd : d.drafts[h]? with
  | none =>
    rw [changeset_of_unknown hd] at raised
    cases raised
  | some draft => rfl

theorem isSome_modifyQuietly (d : Desk) (h k : Handle) (f : Changeset → Changeset) :
    (d.modifyQuietly h f).drafts[k]?.isSome = d.drafts[k]?.isSome := by
  simp only [modifyQuietly, Std.ExtTreeMap.getElem?_modify, Std.LawfulEqOrd.compare_eq_iff_eq]
  split
  · rename_i heq
    rw [heq, Option.isSome_map]
  · rfl

section Keeps

variable {d : Desk} (numbered : d.Numbered)
include numbered

theorem numbered_modifyQuietly (h : Handle) (f : Changeset → Changeset) :
    (d.modifyQuietly h f).Numbered := by
  intro k known
  rw [isSome_modifyQuietly] at known
  exact numbered known

theorem keepsFlags_modifyQuietly {h : Handle} {f : Changeset → Changeset}
    (keeps : (f (d.changeset h)).inFlight = (d.changeset h).inFlight) :
    d.KeepsFlags (d.modifyQuietly h f) where
  numbered := numbered_modifyQuietly numbered h f
  inFlight k := by
    by_cases heq : h = k
    · subst heq
      rcases changeset_modifyQuietly_self d h f with hc | hc <;> rw [hc]
      exact keeps
    · rw [changeset_modifyQuietly_of_ne d f heq]

theorem keepsFlags_newDraft {draft : Draft} (lowered : draft.changeset.inFlight = false) :
    d.KeepsFlags (d.newDraft draft).1 where
  numbered := fun {k} known => by
    rw [getElem?_drafts_newDraft] at known
    split at known
    · rename_i heq
      exact Nat.le_of_eq heq.symm
    · exact Nat.le_succ_of_le (numbered known)
  inFlight k := by
    by_cases heq : d.lastHandle + 1 = k
    · subst heq
      have hunknown : d.drafts[d.lastHandle + 1]? = none := by
        rw [← Option.not_isSome_iff_eq_none]
        exact fun known => Nat.not_succ_le_self _ (numbered known)
      have hnew : (d.newDraft draft).1.changeset (d.lastHandle + 1) = draft.changeset := by
        simp [newDraft, changeset]
      rw [hnew, lowered, changeset_of_unknown hunknown]
      rfl
    · simp [newDraft, changeset, Std.ExtTreeMap.getElem?_insert, heq]

end Keeps

section Changes

variable {d d' : Desk} {part : Part} {parts : List Part}

theorem Change.keepsFlags (change : d.Change part d') (other : part ≠ .flags) (numbered : d.Numbered) :
    d.KeepsFlags d' := by
  by_cases bystanding : part ∈ Part.bystanding
  · exact (change.bystands bystanding).keepsFlags numbered
  · cases change with
    | edit h pristine inFlight => exact keepsFlags_modifyQuietly numbered inFlight
    | draft lowered => exact keepsFlags_newDraft numbered lowered
    | file | unfile => exact SameDrafts.keepsFlags ⟨rfl, rfl⟩ numbered
    | flag => exact absurd rfl other
    | _ => exact absurd (by decide) bystanding

theorem Change.numbered (change : d.Change part d') (numbered : d.Numbered) : d'.Numbered := by
  by_cases other : part = .flags
  · subst other
    cases change with
    | flag h inFlight => exact numbered_modifyQuietly numbered h _
  · exact (change.keepsFlags other numbered).numbered

theorem Changes.numbered (changes : d.Changes parts d') (numbered : d.Numbered) : d'.Numbered :=
  changes.lift (R := fun d d' => d.Numbered → d'.Numbered) (fun _ => id)
    (fun first later numbered => later (first numbered)) (fun _ change => change.numbered) numbered

theorem Changes.keepsFlags (changes : d.Changes parts d') (others : .flags ∉ parts)
    (numbered : d.Numbered) : d.KeepsFlags d' :=
  changes.lift (R := fun d d' => d.Numbered → d.KeepsFlags d')
    (fun d => (SameDrafts.refl d).keepsFlags)
    (fun first later numbered => (first numbered).trans (later (first numbered).numbered))
    (fun mem change => change.keepsFlags (ne_of_mem_of_not_mem mem others)) numbered

end Changes

/-! ## Raising and lowering -/

theorem inFlight_setInFlight {d : Desk} {h : Handle} (known : d.drafts[h]?.isSome = true)
    (raised : Bool) (k : Handle) :
    ((d.setInFlight h raised).changeset k).inFlight =
      if h = k then raised else (d.changeset k).inFlight := by
  rw [setInFlight, changeset_modifyQuietly d h k _ known]
  split <;> rfl

structure Lowers (d : Desk) (h : Handle) (d' : Desk) : Prop where
  numbered : d'.Numbered
  inFlight : ∀ k, (d'.changeset k).inFlight = if h = k then false else (d.changeset k).inFlight

theorem Lowers.trans {d middle last : Desk} {h : Handle} (lowers : d.Lowers h middle)
    (keeps : middle.KeepsFlags last) : d.Lowers h last :=
  ⟨keeps.numbered, fun k => (keeps.inFlight k).trans (lowers.inFlight k)⟩

theorem KeepsFlags.lowers {d middle last : Desk} {h : Handle} (keeps : d.KeepsFlags middle)
    (lowers : middle.Lowers h last) : d.Lowers h last :=
  ⟨lowers.numbered, fun k => by rw [lowers.inFlight, keeps.inFlight]⟩

theorem changeset_lowered (d : Desk) (h k : Handle) :
    (d.setInFlight h false).changeset k =
      { d.changeset k with inFlight := if h = k then false else (d.changeset k).inFlight } := by
  split
  · rename_i heq
    subst heq
    cases hd : d.drafts[h]? with
    | some draft =>
      rw [setInFlight, changeset_modifyQuietly d h h _ (by simp [hd])]
      exact if_pos rfl
    | none =>
      -- A handle that names nothing cannot be lowered, but it reads as lowered.
      have hsame : (d.setInFlight h false).changeset h = d.changeset h := by
        simp [setInFlight, modifyQuietly, changeset, hd]
      rw [hsame, changeset_of_unknown hd]
      rfl
  · rename_i hne
    exact changeset_modifyQuietly_of_ne d _ hne

theorem lowers_setInFlight {d : Desk} (numbered : d.Numbered) (h : Handle) :
    d.Lowers h (d.setInFlight h false) where
  numbered := numbered_modifyQuietly numbered h _
  inFlight k := congrArg Changeset.inFlight (changeset_lowered d h k)

theorem lowers_settle {d : Desk} (numbered : d.Numbered) (h : Handle) (commit : Commit) :
    d.Lowers h (d.settle h commit) := by
  have hkeeps := (bystands_published d commit).keepsFlags numbered
  have hlowers := hkeeps.lowers (lowers_setInFlight hkeeps.numbered h)
  exact hlowers.trans ((changes_reset _ h).keepsFlags (by decide) hlowers.numbered)

end Draftboard.Desk
