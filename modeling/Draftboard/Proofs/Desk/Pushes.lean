import Draftboard.Proofs.Sameness
import Draftboard.Proofs.Desk.Watching
/-!
# Each operation pushes what it changes

Views follow every change of the cache, every edit, and every end of an edit.
-/

namespace Draftboard

namespace Desk

/-! ## The merged value -/

theorem merged?_of_unregistered {d : Desk} {id : PackageId} (h : d.registry[id]? = none) :
    d.merged? id = d.cache.get? id := by
  simp [merged?, pendingEdits?, registered?, h]

theorem merged?_of_registered {d : Desk} {id : PackageId} {h : Handle} (hr : d.registry[id]? = some h) :
    d.merged? id =
      if (d.changeset h).isEmpty then d.cache.get? id else some (d.changeset h).projected := by
  simp only [merged?, pendingEdits?, registered?, hr, Option.map_some]
  cases he : (d.changeset h).isEmpty <;> simp [Option.filter, he]

theorem merged?_congr {d d' : Desk} {id : PackageId} (registry : d'.registry[id]? = d.registry[id]?)
    (changeset : ∀ h, d.registry[id]? = some h → (d'.changeset h).changes = (d.changeset h).changes ∧
      (d'.changeset h).pristine = (d.changeset h).pristine)
    (cache : d'.cache.get? id = d.cache.get? id) : d'.merged? id = d.merged? id := by
  cases hr : d.registry[id]? with
  | none => rw [merged?_of_unregistered hr, merged?_of_unregistered (registry.trans hr), cache]
  | some h =>
    obtain ⟨hchanges, hpristine⟩ := changeset h hr
    have hempty : (d'.changeset h).isEmpty = (d.changeset h).isEmpty := by
      rw [Changeset.isEmpty, Changeset.isEmpty, hchanges]
    have hprojected : (d'.changeset h).projected = (d.changeset h).projected := by
      rw [Changeset.projected, Changeset.projected, hchanges, hpristine]
    rw [merged?_of_registered hr, merged?_of_registered (registry.trans hr), cache, hempty, hprojected]

/-! ## Changes of the cache -/

/-- What one message of the cache makes its subscriber hear. -/
def told (d : Desk) (x : CacheDelivery) : List Delivery :=
  match x.subscription.watcher with
  | .caller => [.cache x.subscription.number x.value (d.cachedVersion x.id)]
  | .views => (d.views.subscriptionsOf x.id).map fun n => .view n (d.merged? x.id)

theorem foldl_deliverCache (d : Desk) (messages : List CacheDelivery) :
    messages.foldl deliverCache d =
      { d with deliveries := d.deliveries ++ messages.flatMap d.told } := by
  induction messages generalizing d with
  | nil => simp
  | cons first rest ih =>
    have hfirst : d.deliverCache first = { d with deliveries := d.deliveries ++ d.told first } := by
      cases hw : first.subscription.watcher <;> simp only [deliverCache, told, hw] <;> rfl
    rw [List.foldl_cons, hfirst, ih, List.flatMap_cons, List.append_assoc]
    rfl

theorem view_mem_told {d : Desk} {c : PackageCache} {id : PackageId} {entry value : Option Snapshot}
    {n : Nat} :
    .view n value ∈ (c.deliveries id entry).flatMap d.told ↔
      (∃ s ∈ c.subscriptionsOf id, s.watcher = .views) ∧ n ∈ d.views.subscriptionsOf id ∧
        value = d.merged? id := by
  simp only [PackageCache.deliveries, List.mem_flatMap, List.mem_map]
  constructor
  · rintro ⟨x, ⟨s, hs, rfl⟩, hx⟩
    unfold told at hx
    cases hw : s.watcher with
    | caller => simp [hw] at hx
    | views =>
      simp only [hw, List.mem_map, Delivery.view.injEq] at hx
      obtain ⟨m, hm, rfl, rfl⟩ := hx
      exact ⟨⟨s, hs, hw⟩, hm, rfl⟩
  · rintro ⟨⟨s, hs, hw⟩, hn, rfl⟩
    refine ⟨_, ⟨s, hs, rfl⟩, ?_⟩
    simp only [told, hw, List.mem_map]
    exact ⟨n, hn, rfl⟩

theorem follows_deliveries {d : Desk} (h : d.Linked) (cache : PackageCache) {id : PackageId}
    (subscriptions : cache.subscriptions = d.cache.subscriptions)
    (others : ∀ other, id ≠ other → cache.get? other = d.cache.get? other) (entry : Option Snapshot) :
    d.Follows ((d.cache.deliveries id entry).foldl deliverCache { d with cache }) := by
  rw [foldl_deliverCache]
  refine .of_pushes h (h.congr rfl rfl rfl rfl subscriptions) rfl rfl id ?_ (Or.inr ?_) ?_
  · intro n value hmem
    exact (view_mem_told.1 hmem).2
  · intro n hn
    obtain ⟨link, hlink⟩ := h.linked (List.ne_nil_of_mem hn)
    exact ⟨_, view_mem_told.2 ⟨h.watched hlink, hn, rfl⟩⟩
  · intro other hne
    exact merged?_congr rfl (fun _ _ => ⟨rfl, rfl⟩) (others other hne)

theorem follows_putPackage {d : Desk} (h : d.Linked) (snapshot : Snapshot) :
    d.Follows (d.putPackage snapshot) := by
  have others : ∀ other, snapshot.id ≠ other →
      (d.cache.put snapshot).1.get? other = d.cache.get? other := by
    intro other hne
    rw [PackageCache.get?_put, if_neg hne]
  exact follows_deliveries h (d.cache.put snapshot).1 rfl others _

theorem follows_refl {d : Desk} (h : d.Linked) : d.Follows d :=
  .of_quiet h rfl (List.append_nil _).symm (by simp) fun _ => rfl

theorem follows_dropPackage {d : Desk} (h : d.Linked) (id : PackageId) : d.Follows (d.dropPackage id) := by
  by_cases hc : d.cache.contains id = true
  · have hi : d.cache.invalidate id =
        ({ d.cache with entries := d.cache.entries.erase id }, d.cache.deliveries id none) := by
      rw [PackageCache.invalidate, if_pos hc]
    unfold dropPackage
    rw [hi]
    refine follows_deliveries h { d.cache with entries := d.cache.entries.erase id } rfl ?_ none
    intro other hne
    have hget := PackageCache.get?_invalidate d.cache id other
    rw [hi, if_neg hne] at hget
    exact hget
  · have hi : d.cache.invalidate id = (d.cache, []) := by
      rw [PackageCache.invalidate, if_neg hc]
    unfold dropPackage
    rw [hi]
    exact follows_refl h

/-! ## Changes of a change-set -/

theorem linked_modifyQuietly {d : Desk} (h : d.Linked) {k : Handle} {f : Changeset → Changeset}
    (keeps : (f (d.changeset k)).pristine = (d.changeset k).pristine) : (d.modifyQuietly k f).Linked where
  handle_le := h.handle_le
  reported hr := by rw [isReported_modifyQuietly]; exact h.reported hr
  id_eq hr := by rw [Changeset.id, pristine_modifyQuietly d keeps]; exact h.id_eq hr
  linked := h.linked
  watched := h.watched
  number_le := h.number_le
  id_unique := h.id_unique

theorem merged?_modifyQuietly_of_ne {d : Desk} (h : d.Linked) {k : Handle} (f : Changeset → Changeset)
    {other : PackageId} (hne : (d.changeset k).id ≠ other) :
    (d.modifyQuietly k f).merged? other = d.merged? other := by
  refine merged?_congr rfl (fun registered hr => ?_) rfl
  have hk : k ≠ registered := by
    rintro rfl
    exact hne (h.id_eq hr)
  rw [changeset_modifyQuietly_of_ne d f hk]
  exact ⟨rfl, rfl⟩

theorem merged?_modifyQuietly_of_unregistered {d : Desk} (h : d.Linked) {k : Handle}
    (hr : d.registry[(d.changeset k).id]? ≠ some k) (f : Changeset → Changeset) (id : PackageId) :
    (d.modifyQuietly k f).merged? id = d.merged? id := by
  refine merged?_congr rfl (fun registered hr' => ?_) rfl
  have hk : k ≠ registered := by
    rintro rfl
    rw [h.id_eq hr'] at hr
    exact hr hr'
  rw [changeset_modifyQuietly_of_ne d f hk]
  exact ⟨rfl, rfl⟩

theorem follows_modifyQuietly {d : Desk} (h : d.Linked) (k : Handle) {f : Changeset → Changeset}
    (pristine : ∀ c, (f c).pristine = c.pristine) (changes : ∀ c, (f c).changes = c.changes) :
    d.Follows (d.modifyQuietly k f) := by
  refine .of_quiet (linked_modifyQuietly h (pristine _)) rfl (List.append_nil _).symm (by simp) ?_
  intro id
  refine merged?_congr rfl (fun registered hr => ?_) rfl
  refine ⟨?_, pristine_modifyQuietly d (pristine _) registered⟩
  by_cases heq : k = registered
  · subst heq
    rcases changeset_modifyQuietly_self d k f with hc | hc <;> rw [hc]
    exact changes _
  · rw [changeset_modifyQuietly_of_ne d f heq]

theorem follows_pushViews {d d' : Desk} (h : d.Linked) (linked : d'.Linked)
    (views : d'.views = d.views) (deliveries : d'.deliveries = d.deliveries) (id : PackageId)
    (others : ∀ other, id ≠ other → d'.merged? other = d.merged? other) :
    d.Follows (d'.pushViews id) := by
  refine .of_pushes h (linked.congr rfl rfl rfl rfl rfl) views (congrArg (· ++ _) deliveries) id
    ?_ (Or.inr ?_) others
  · intro n value hmem
    obtain ⟨m, hm, heq⟩ := List.mem_map.1 hmem
    cases heq
    rw [← views]
    exact ⟨hm, rfl⟩
  · intro n hn
    rw [← views] at hn
    exact ⟨_, List.mem_map.2 ⟨n, hn, rfl⟩⟩

theorem follows_of_same {d d' : Desk} (h : d.Linked) (linked : d'.Linked)
    (views : d'.views = d.views) (deliveries : d'.deliveries = d.deliveries) (id : PackageId)
    (same : SameView (d.merged? id) (d'.merged? id))
    (others : ∀ other, id ≠ other → d'.merged? other = d.merged? other) : d.Follows d' := by
  refine .of_pushes h linked views (deliveries.trans (List.append_nil _).symm) id ?_ (Or.inl same) others
  intro n value hmem
  cases hmem

/-- An edit that a reporting change-set has nothing to report of is not seen. -/
theorem sameView_modifyQuietly {d : Desk} (h : d.Linked) {k : Handle} {after : Changeset}
    (keeps : after.pristine = (d.changeset k).pristine)
    (same : d.isReported k = true → (d.changeset k).changes.same after.changes = true) :
    SameView (d.merged? (d.changeset k).id)
      ((d.modifyQuietly k fun _ => after).merged? (d.changeset k).id) := by
  by_cases hr : d.registry[(d.changeset k).id]? = some k
  · have hreported := h.reported hr
    have hsame := same hreported
    have hafter : (d.modifyQuietly k fun _ => after).changeset k = after := by
      rw [changeset_modifyQuietly d k k _ (isSome_of_isReported hreported), if_pos rfl]
    have hlater := merged?_of_registered (d := d.modifyQuietly k fun _ => after) hr
    rw [merged?_of_registered hr, hlater, hafter, Changeset.isEmpty, Changeset.isEmpty,
      Attributes.isEmpty_eq_of_same hsame]
    split
    · rfl
    · exact congrArg some (Changeset.untitled_projected keeps hsame).symm
  · rw [merged?_modifyQuietly_of_unregistered h hr]
    rfl

theorem follows_edit {α : Type} {d : Desk} (h : d.Linked) (k : Handle) (f : Changeset → Changeset × α)
    (keeps : (f (d.changeset k)).1.pristine = (d.changeset k).pristine) :
    d.Follows (d.edit k f).1 := by
  have hlinked : (d.modifyQuietly k fun _ => (f (d.changeset k)).1).Linked := linked_modifyQuietly h keeps
  have hid : (f (d.changeset k)).1.id = (d.changeset k).id := congrArg Snapshot.id keeps
  have others : ∀ other, (d.changeset k).id ≠ other →
      (d.modifyQuietly k fun _ => (f (d.changeset k)).1).merged? other = d.merged? other :=
    fun other hne => merged?_modifyQuietly_of_ne h _ hne
  unfold edit
  dsimp only
  split
  · rw [hid]
    exact follows_pushViews h hlinked rfl rfl _ others
  · rename_i hquiet
    rw [isReported_modifyQuietly] at hquiet
    refine follows_of_same h hlinked rfl rfl (d.changeset k).id ?_ others
    refine sameView_modifyQuietly h keeps fun hreported => ?_
    simpa [hreported] using hquiet

/-! ## The end of an edit -/

theorem linked_erase {d : Desk} (h : d.Linked) (id : PackageId) :
    ({ d with registry := d.registry.erase id } : Desk).Linked := by
  have hsub : ∀ {other : PackageId} {k : Handle}, (d.registry.erase id)[other]? = some k →
      d.registry[other]? = some k := by
    intro other k hk
    rw [Std.ExtTreeMap.getElem?_erase] at hk
    split at hk
    · cases hk
    · exact hk
  exact
    { handle_le := fun hk => h.handle_le (hsub hk)
      reported := fun hk => h.reported (hsub hk)
      id_eq := fun hk => h.id_eq (hsub hk)
      linked := h.linked
      watched := h.watched
      number_le := h.number_le
      id_unique := h.id_unique }

section Erase

variable {d : Desk} {id : PackageId} {k : Handle}

theorem merged?_erase_of_ne (h : d.Linked) (hr : d.registry[id]? = some k) {other : PackageId}
    (hne : id ≠ other) :
    ({ d.modifyQuietly k Changeset.clear with registry := d.registry.erase id } : Desk).merged? other =
      d.merged? other := by
  refine Eq.trans ?_ (merged?_modifyQuietly_of_ne h Changeset.clear (by rw [h.id_eq hr]; exact hne))
  refine merged?_congr ?_ (fun _ _ => ⟨rfl, rfl⟩) rfl
  simp [modifyQuietly, Std.ExtTreeMap.getElem?_erase, hne]

theorem merged?_erase_self (hr : d.registry[id]? = some k) (hempty : (d.changeset k).isEmpty = true) :
    ({ d.modifyQuietly k Changeset.clear with registry := d.registry.erase id } : Desk).merged? id =
      d.merged? id := by
  rw [merged?_of_registered hr, if_pos hempty, merged?_of_unregistered (by simp)]
  rfl

theorem follows_erase (h : d.Linked) (hr : d.registry[id]? = some k) :
    let after : Desk := { d.modifyQuietly k Changeset.clear with registry := d.registry.erase id }
    d.Follows (if (d.changeset k).isEmpty then after else after.pushViews id) := by
  intro after
  have hlinked : after.Linked := linked_erase (linked_modifyQuietly h rfl) id
  split
  · rename_i hempty
    refine follows_of_same h hlinked rfl rfl id ?_ fun other hne => merged?_erase_of_ne h hr hne
    exact congrArg _ (merged?_erase_self hr hempty).symm
  · exact follows_pushViews h hlinked rfl rfl id fun other hne => merged?_erase_of_ne h hr hne

end Erase

theorem follows_reset {d : Desk} (h : d.Linked) (k : Handle) : d.Follows (d.reset k) := by
  unfold reset
  dsimp only
  split
  · rename_i hr
    exact follows_erase h hr
  · rename_i hr
    have hmerged := merged?_modifyQuietly_of_unregistered h hr Changeset.clear
    exact .of_quiet (linked_modifyQuietly h rfl) rfl (List.append_nil _).symm (by simp) hmerged

theorem follows_stopEditing {d : Desk} (h : d.Linked) (id : PackageId) :
    d.Follows (d.stopEditing id) := by
  unfold stopEditing
  cases hr : d.registered? id with
  | none => exact follows_refl h
  | some k =>
    have herase := follows_erase h hr
    cases hempty : (d.changeset k).isEmpty <;> simp only [hempty] at herase ⊢ <;> exact herase

/-! ## The start of an edit -/

theorem getElem?_newDraft {d : Desk} (h : d.Linked) (draft : Draft) {id : PackageId} {k : Handle}
    (hr : d.registry[id]? = some k) : (d.newDraft draft).1.drafts[k]? = d.drafts[k]? := by
  have hne : d.lastHandle + 1 ≠ k := by
    rintro rfl
    exact Nat.not_succ_le_self _ (h.handle_le hr)
  rw [getElem?_drafts_newDraft, if_neg hne]

theorem merged?_newDraft {d : Desk} (h : d.Linked) (draft : Draft) (id : PackageId) :
    (d.newDraft draft).1.merged? id = d.merged? id := by
  refine merged?_congr rfl (fun k hr => ?_) rfl
  unfold changeset
  rw [getElem?_newDraft h draft hr]
  exact ⟨rfl, rfl⟩

theorem linked_newDraft {d : Desk} (h : d.Linked) (draft : Draft) : (d.newDraft draft).1.Linked where
  handle_le hr := Nat.le_succ_of_le (h.handle_le hr)
  reported hr := by unfold isReported; rw [getElem?_newDraft h draft hr]; exact h.reported hr
  id_eq hr := by unfold changeset; rw [getElem?_newDraft h draft hr]; exact h.id_eq hr
  linked := h.linked
  watched := h.watched
  number_le := h.number_le
  id_unique := h.id_unique

theorem follows_newDraft {d : Desk} (h : d.Linked) (draft : Draft) : d.Follows (d.newDraft draft).1 :=
  .of_quiet (linked_newDraft h draft) rfl (List.append_nil _).symm (by simp) (merged?_newDraft h draft)

theorem linked_insert {d : Desk} (h : d.Linked) {k : Handle} (handle_le : k ≤ d.lastHandle)
    (reported : d.isReported k = true) :
    ({ d with registry := d.registry.insert (d.changeset k).id k } : Desk).Linked := by
  have hcases : ∀ {other : PackageId} {j : Handle},
      (d.registry.insert (d.changeset k).id k)[other]? = some j →
      ((d.changeset k).id = other ∧ k = j) ∨ d.registry[other]? = some j := by
    intro other j hj
    rw [Std.ExtTreeMap.getElem?_insert] at hj
    split at hj
    · rename_i heq
      exact Or.inl ⟨Std.LawfulEqOrd.compare_eq_iff_eq.1 heq, Option.some.inj hj⟩
    · exact Or.inr hj
  exact
    { handle_le := fun hj => by
        rcases hcases hj with ⟨-, rfl⟩ | hj
        · exact handle_le
        · exact h.handle_le hj
      reported := fun hj => by
        rcases hcases hj with ⟨-, rfl⟩ | hj
        · exact reported
        · exact h.reported hj
      id_eq := fun hj => by
        rcases hcases hj with ⟨heq, rfl⟩ | hj
        · exact heq
        · exact h.id_eq hj
      linked := h.linked
      watched := h.watched
      number_le := h.number_le
      id_unique := h.id_unique }

theorem follows_startEditing {d : Desk} (h : d.Linked) {snapshot : Snapshot} (form : Option Form)
    (free : ∀ k, d.registry[snapshot.id]? = some k → (d.changeset k).isEmpty = true) :
    d.Follows (d.startEditing snapshot form).1 := by
  let draft : Draft := { changeset := { pristine := snapshot, form }, reported := true }
  have hdraft : (d.newDraft draft).1.drafts[d.lastHandle + 1]? = some draft := by
    simp [newDraft]
  have hchangeset : (d.newDraft draft).1.changeset (d.lastHandle + 1) = draft.changeset := by
    rw [changeset, hdraft]
    rfl
  have hreported : (d.newDraft draft).1.isReported (d.lastHandle + 1) = true := by
    rw [isReported, hdraft]
    rfl
  have hlinked := linked_insert (linked_newDraft h draft) (Nat.le_refl (d.lastHandle + 1)) hreported
  rw [hchangeset] at hlinked
  have hbefore : d.merged? snapshot.id = d.cache.get? snapshot.id := by
    cases hr : d.registry[snapshot.id]? with
    | none => exact merged?_of_unregistered hr
    | some k => rw [merged?_of_registered hr, if_pos (free k hr)]
  have hafter : (d.startEditing snapshot form).1.merged? snapshot.id = d.cache.get? snapshot.id := by
    have hr : (d.startEditing snapshot form).1.registry[snapshot.id]? = some (d.lastHandle + 1) := by
      simp [startEditing, newDraft]
    have hempty : ((d.startEditing snapshot form).1.changeset (d.lastHandle + 1)).isEmpty = true := by
      rw [show (d.startEditing snapshot form).1.changeset (d.lastHandle + 1) = draft.changeset from
        hchangeset]
      rfl
    rw [merged?_of_registered hr, if_pos hempty]
    rfl
  -- Before and after, the views of the work package show what is cached.
  refine follows_of_same h hlinked rfl rfl snapshot.id ?_ ?_
  · rw [hbefore]
    exact congrArg _ hafter.symm
  · intro other hne
    have hsame : (d.startEditing snapshot form).1.merged? other = (d.newDraft draft).1.merged? other :=
      merged?_congr (by simp [startEditing, newDraft, Std.ExtTreeMap.getElem?_insert, hne])
        (fun _ _ => ⟨rfl, rfl⟩) rfl
    exact hsame.trans (merged?_newDraft h draft other)

end Desk

end Draftboard
