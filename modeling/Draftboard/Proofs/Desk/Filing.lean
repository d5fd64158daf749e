import Draftboard.Proofs.Desk.Drafts
import Draftboard.Proofs.Desk.InFlight
/-!
# Hooks, subscribers and the registry

Whatever is done with change-sets, the hooks stay and so do those who are subscribed to commits. The
registry has change-sets that exist, each under the id of its work package.
-/

namespace Draftboard.Desk

/-! ## The registry in order -/

structure Filed (d : Desk) : Prop where
  keyed : d.Keyed
  known : ∀ {id : PackageId} {h : Handle}, d.registry[id]? = some h → d.drafts[h]?.isSome = true
  id_eq : ∀ {id : PackageId} {h : Handle}, d.registry[id]? = some h → (d.changeset h).id = id

structure KeepsOrder (d d' : Desk) : Prop where
  house : d.KeepsHouse d'
  filed : d.Filed → d'.Filed

theorem KeepsOrder.trans {first middle last : Desk} (h : first.KeepsOrder middle)
    (h' : middle.KeepsOrder last) : first.KeepsOrder last :=
  ⟨h.house.trans h'.house, fun filed => h'.filed (h.filed filed)⟩

theorem KeepsDrafts.filed {d d' : Desk} (keeps : d.KeepsDrafts d') (keyed : d'.Keyed)
    (filed : d.Filed) : d'.Filed where
  keyed := keyed
  known hr := (keeps.isSome _).trans (filed.known (keeps.registry hr))
  id_eq hr := by
    rw [Changeset.id, keeps.pristine]
    exact filed.id_eq (keeps.registry hr)

theorem KeepsDrafts.keepsOrder {d d' : Desk} (keeps : d.KeepsDrafts d') (house : d.KeepsHouse d') :
    d.KeepsOrder d' :=
  ⟨house, fun filed => keeps.filed (house.keyed filed.keyed) filed⟩

theorem Bystands.keepsOrder {d d' : Desk} (h : d.Bystands d') : d.KeepsOrder d' :=
  h.keepsDrafts.keepsOrder h.toKeepsHouse

/-! ## The start of an edit -/

section Start

variable {d : Desk} (numbered : d.Numbered)
include numbered

theorem getElem?_newDraft_of_known (draft : Draft) {k : Handle} (known : d.drafts[k]?.isSome = true) :
    (d.newDraft draft).1.drafts[k]? = d.drafts[k]? := by
  have hne : d.lastHandle + 1 ≠ k := by
    rintro rfl
    exact Nat.not_succ_le_self _ (numbered known)
  rw [getElem?_drafts_newDraft, if_neg hne]

theorem changeset_newDraft_of_known (draft : Draft) {k : Handle} (known : d.drafts[k]?.isSome = true) :
    (d.newDraft draft).1.changeset k = d.changeset k := by
  rw [changeset, getElem?_newDraft_of_known numbered draft known]
  rfl

theorem keepsOrder_newDraft (draft : Draft) : d.KeepsOrder (d.newDraft draft).1 where
  house := .of_eq rfl rfl rfl rfl
  filed filed :=
    { keyed := filed.keyed
      known := fun hr => by
        rw [getElem?_newDraft_of_known numbered draft (filed.known hr)]
        exact filed.known hr
      id_eq := fun hr => by
        rw [changeset_newDraft_of_known numbered draft (filed.known hr)]
        exact filed.id_eq hr }

end Start

theorem registered?_startEditing (d : Desk) (snapshot : Snapshot) (form : Option Form)
    (id : PackageId) :
    (d.startEditing snapshot form).1.registered? id =
      if snapshot.id = id then some (d.lastHandle + 1) else d.registered? id := by
  simp [startEditing, newDraft, registered?, Std.ExtTreeMap.getElem?_insert]

theorem changeset_startEditing (d : Desk) (snapshot : Snapshot) (form : Option Form) :
    (d.startEditing snapshot form).1.changeset (d.lastHandle + 1) = { pristine := snapshot, form } := by
  simp [startEditing, newDraft, changeset]

/-! ## Whatever is done -/

theorem Filed.insert {d : Desk} (filed : d.Filed) {id : PackageId} {h : Handle}
    (known : d.drafts[h]?.isSome = true) (mine : (d.changeset h).id = id) :
    ({ d with registry := d.registry.insert id h } : Desk).Filed := by
  have hcases : ∀ {other : PackageId} {k : Handle}, (d.registry.insert id h)[other]? = some k →
      (id = other ∧ h = k) ∨ d.registry[other]? = some k := by
    intro other k hr
    simp only [Std.ExtTreeMap.getElem?_insert, Std.LawfulEqOrd.compare_eq_iff_eq] at hr
    split at hr
    · rename_i heq
      exact Or.inl ⟨heq, Option.some.inj hr⟩
    · exact Or.inr hr
  refine ⟨filed.keyed, fun hr => ?_, fun hr => ?_⟩
  · rcases hcases hr with ⟨-, rfl⟩ | hr
    · exact known
    · exact filed.known hr
  · rcases hcases hr with ⟨rfl, rfl⟩ | hr
    · exact mine
    · exact filed.id_eq hr

section Changes

variable {d d' : Desk} (numbered : d.Numbered)
include numbered

theorem Change.keepsOrder {part : Part} (change : d.Change part d') : d.KeepsOrder d' := by
  by_cases undrafted : part = .drafts
  · subst undrafted
    cases change with
    | draft => exact keepsOrder_newDraft numbered _
  · by_cases unfiled : part = .filed
    · subst unfiled
      cases change with
      | file known mine => exact ⟨.of_eq rfl rfl rfl rfl, fun filed => filed.insert known mine⟩
    · exact (change.keepsDrafts undrafted unfiled).keepsOrder change.keepsHouse

theorem Changes.keepsOrder {parts : List Part} (changes : d.Changes parts d') : d.KeepsOrder d' := by
  have hlift := changes.lift (R := fun d d' => d.Numbered → d'.Numbered ∧ d.KeepsOrder d')
    (fun d numbered => ⟨numbered, (Bystands.refl d).keepsOrder⟩)
    (fun first later numbered => by
      obtain ⟨hnumbered, hfirst⟩ := first numbered
      exact ⟨(later hnumbered).1, hfirst.trans (later hnumbered).2⟩)
    fun _ change numbered => ⟨change.numbered numbered, change.keepsOrder numbered⟩
  exact (hlift numbered).2

end Changes

theorem Change.known {d d' : Desk} {part : Part} (change : d.Change part d') {h : Handle}
    (known : d.drafts[h]?.isSome = true) : d'.drafts[h]?.isSome = true := by
  by_cases undrafted : part = .drafts
  · subst undrafted
    cases change with
    | draft =>
      rw [getElem?_drafts_newDraft]
      split
      · rfl
      · exact known
  · by_cases unfiled : part = .filed
    · subst unfiled
      cases change with
      | file => exact known
    · exact ((change.keepsDrafts undrafted unfiled).isSome h).trans known

theorem Changes.known {d d' : Desk} {parts : List Part} (changes : d.Changes parts d') {h : Handle}
    (known : d.drafts[h]?.isSome = true) : d'.drafts[h]?.isSome = true :=
  changes.lift (R := fun d d' => d.drafts[h]?.isSome = true → d'.drafts[h]?.isSome = true) (fun _ => id)
    (fun first later known => later (first known)) (fun _ change => change.known) known

theorem Changes.keepsOrder_of_undrafted {d d' : Desk} {parts : List Part} (changes : d.Changes parts d')
    (undrafted : .drafts ∉ parts) (unfiled : .filed ∉ parts) : d.KeepsOrder d' :=
  (changes.keepsDrafts undrafted unfiled).keepsOrder changes.keepsHouse

end Draftboard.Desk
