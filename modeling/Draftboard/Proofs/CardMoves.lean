import Mathlib.Data.List.Perm.Basic
import Draftboard.Proofs.CardOrder
/-!
# Where cards go

Each change of an order of cards says where the saved cards are afterwards. The placeholder is no saved
card: it stands in front of them and does not count when a card is put at an index.
-/

namespace Draftboard.CardOrder

/-! ## First places -/

theorem firstPlaces_concat (ids : List PackageId) (id : PackageId) :
    firstPlaces (ids ++ [id]) = appendCard (firstPlaces ids) id := by
  simp [firstPlaces]

theorem firstPlaces_eq_eraseDups (ids : List PackageId) :
    firstPlaces ids = (ids.filter (!·.isNew)).eraseDups := by
  induction ids using List.reverseRecOn with
  | nil => rfl
  | append_singleton ids id ih =>
    rw [firstPlaces_concat, ih, List.filter_append, List.eraseDups_append, appendCard]
    cases hnew : id.isNew with
    | true => simp [hnew]
    | false => by_cases hmem : id ∈ ids <;> simp [hnew, hmem, List.removeAll, List.eraseDups_cons]

theorem firstPlaces_of_nodup {ids : List PackageId} (nodup : ids.Nodup) (known : .unsaved ∉ ids) :
    firstPlaces ids = ids := by
  induction ids using List.reverseRecOn with
  | nil => rfl
  | append_singleton ids id ih =>
    obtain ⟨hnodup, -, hnew⟩ := List.nodup_append.1 nodup
    rw [List.mem_append, List.mem_singleton, not_or] at known
    have hid : id ∉ ids := fun hmem => hnew id hmem id List.mem_cons_self rfl
    have hsaved : id.isNew = false := by
      rw [← Bool.not_eq_true, PackageId.isNew_iff]
      exact Ne.symm known.2
    rw [firstPlaces_concat, ih hnodup known.1, appendCard, if_neg]
    simp [hsaved, hid]

theorem insertAt_perm (cards : List PackageId) (index : Nat) (id : PackageId) :
    (insertAt cards index id).Perm (id :: cards) :=
  List.perm_insertIdx id cards (Nat.min_le_right index cards.length)

theorem filter_insertAt (cards : List PackageId) (index : Nat) (id : PackageId) :
    (insertAt cards index id).filter (· ≠ id) = cards.filter (· ≠ id) := by
  have hsub : (cards.filter (· ≠ id)).Sublist ((insertAt cards index id).filter (· ≠ id)) :=
    (List.sublist_insertIdx cards _ id).filter _
  have hperm := (insertAt_perm cards index id).filter (· ≠ id)
  rw [List.filter_cons_of_neg (by simp)] at hperm
  exact (hsub.eq_of_length hperm.length_eq.symm).symm

/-! ## The saved cards and the placeholder -/

/-- What stands in front of the saved cards. -/
def placeholder (shown : Bool) : List PackageId := if shown then [.unsaved] else []

def others (o : CardOrder) (id : PackageId) : List PackageId := o.currentOrder.filter (· ≠ id)

theorem filter_saved_of_not_mem {cards : List PackageId} (known : .unsaved ∉ cards) :
    cards.filter (!·.isNew) = cards := by
  rw [List.filter_eq_self]
  intro id hid
  rw [Bool.not_eq_true', ← Bool.not_eq_true, PackageId.isNew_iff]
  rintro rfl
  exact known hid

namespace Arranged

variable {shown : Bool} {o : CardOrder}

theorem cards_eq (h : Arranged shown o) : o.cards = placeholder shown ++ o.currentOrder := by
  cases h with
  | plain nodup known => exact (filter_saved_of_not_mem known).symm
  | withPlaceholder nodup known =>
    have hsaved := filter_saved_of_not_mem known
    simp [currentOrder, placeholder, PackageId.isNew_unsaved, hsaved]

theorem nodup_currentOrder (h : Arranged shown o) : o.currentOrder.Nodup := h.nodup_cards.filter _

theorem findIdx?_isNew (h : Arranged shown o) :
    o.cards.findIdx? (·.isNew) = if shown then some 0 else none := by
  cases h with
  | plain nodup known => exact findIdx?_isNew_eq_none known
  | withPlaceholder nodup known => exact findIdx?_isNew_unsaved _

theorem cards_setOrder (h : Arranged shown o) (ids : List PackageId) :
    (o.setOrder ids).cards = placeholder shown ++ firstPlaces ids := by
  unfold CardOrder.setOrder
  rw [h.findIdx?_isNew]
  cases shown with
  | false => rfl
  | true => simp [insertAt, placeholder]

theorem currentOrder_setOrder (h : Arranged shown o) (ids : List PackageId) :
    (o.setOrder ids).currentOrder = firstPlaces ids := by
  have hcards := (h.setOrder ids).cards_eq
  rw [h.cards_setOrder] at hcards
  exact (List.append_cancel_left hcards).symm

end Arranged

theorem unsaved_not_mem_currentOrder (o : CardOrder) : .unsaved ∉ o.currentOrder := by
  simp [currentOrder, PackageId.isNew_unsaved]

theorem mem_others {o : CardOrder} {id other : PackageId} :
    other ∈ o.others id ↔ other ∈ o.currentOrder ∧ other ≠ id := by
  simp [others]

section Saved

variable {shown : Bool} {o : CardOrder} {id : PackageId}

theorem nodup_cons_others (h : Arranged shown o) (id : PackageId) : (id :: o.others id).Nodup :=
  List.nodup_cons.2 ⟨fun hmem => (mem_others.1 hmem).2 rfl, h.nodup_currentOrder.filter _⟩

theorem firstPlaces_insertAt_others (h : Arranged shown o) (saved : id.isNew = false) (index : Nat) :
    firstPlaces (insertAt (o.others id) index id) = insertAt (o.others id) index id := by
  have hperm := insertAt_perm (o.others id) index id
  refine firstPlaces_of_nodup (hperm.nodup_iff.2 (nodup_cons_others h id)) fun hmem => ?_
  rcases mem_insertAt.1 hmem with rfl | hmem
  · rw [PackageId.isNew_unsaved] at saved
    cases saved
  · exact o.unsaved_not_mem_currentOrder (mem_others.1 hmem).1

theorem cards_add (h : Arranged shown o) (saved : id.isNew = false) (index : Option Nat) :
    (o.add id index).cards =
      placeholder shown ++ insertAt (o.others id) (index.getD (o.others id).length) id := by
  unfold CardOrder.add
  rw [if_neg (by simp [saved])]
  exact (h.cards_setOrder _).trans (congrArg _ (firstPlaces_insertAt_others h saved _))

theorem currentOrder_add (h : Arranged shown o) (saved : id.isNew = false) (index : Option Nat) :
    (o.add id index).currentOrder = insertAt (o.others id) (index.getD (o.others id).length) id := by
  have hcards := (h.add id index).cards_eq
  rw [cards_add h saved] at hcards
  exact (List.append_cancel_left hcards).symm

theorem canMove_iff : o.canMove id = true ↔ id.isNew = false ∧ id ∈ o.cards := by
  simp [canMove]

theorem mem_currentOrder_of_canMove (movable : o.canMove id = true) : id ∈ o.currentOrder := by
  obtain ⟨hsaved, hmem⟩ := canMove_iff.1 movable
  simp [currentOrder, hsaved, hmem]

theorem currentOrder_perm_cons_others (h : Arranged shown o) (movable : o.canMove id = true) :
    o.currentOrder.Perm (id :: o.others id) := by
  have hmem := mem_currentOrder_of_canMove movable
  refine (List.perm_ext_iff_of_nodup h.nodup_currentOrder (nodup_cons_others h id)).2 fun other => ?_
  rw [List.mem_cons, mem_others]
  by_cases heq : other = id <;> simp [heq, hmem]

theorem length_others (h : Arranged shown o) (movable : o.canMove id = true) :
    (o.others id).length = o.currentOrder.length - 1 :=
  (Nat.sub_eq_of_eq_add (currentOrder_perm_cons_others h movable).length_eq).symm

theorem onCardSaved_of_shown (h : Arranged true o) (saved : id.isNew = false) :
    o.onCardSaved id = ({ cards := id :: o.others id }, true) := by
  cases h with
  | @withPlaceholder cards nodup known =>
    have hothers : ({ cards := .unsaved :: cards } : CardOrder).others id =
        ({ cards } : CardOrder).others id := by
      simp [others, currentOrder, PackageId.isNew_unsaved]
    have hadded := cards_add (.plain nodup known) saved (some 0)
    rw [onCardSaved, findIdx?_isNew_unsaved, hothers]
    refine Prod.ext (congrArg mk (hadded.trans ?_)) rfl
    simp [placeholder, insertAt]

theorem onCardSaved_of_hidden (h : Arranged false o) (id : PackageId) :
    o.onCardSaved id = (o, false) := by
  rw [onCardSaved, h.findIdx?_isNew]
  rfl

end Saved

/-! ## Places after a change -/

/-- What each change makes of the saved cards. Indexes count saved cards, without the one that is put
there. The placeholder stays as it is until a saved card takes its place. -/
theorem saved_cards_after (ids : List PackageId) (changes : List Change) :
    let o := (ofList ids).run changes
    let saved := o.currentOrder
    let place (o : CardOrder) : Option Nat := o.cards.findIdx? (·.isNew)
    (∀ new, (o.setOrder new).currentOrder = (new.filter (!·.isNew)).eraseDups) ∧
      (∀ id index, o.canMove id = true → (o.moveTo id index).currentOrder =
        (saved.filter (· ≠ id)).insertIdx (min index (saved.length - 1)) id) ∧
      (∀ id, id.isNew = false →
        (∀ index, (o.add id (some index)).currentOrder =
          (saved.filter (· ≠ id)).insertIdx (min index (saved.filter (· ≠ id)).length) id) ∧
        (o.add id none).currentOrder = saved.filter (· ≠ id) ++ [id]) ∧
      (∀ new, place (o.setOrder new) = place o) ∧
      (∀ id index, place (o.moveTo id index) = place o) ∧
      (∀ id index, place (o.add id index) = place o) ∧
      (o.hasPlaceholder = true → ∀ id, id.isNew = false →
        o.onCardSaved id = ({ cards := id :: saved.filter (· ≠ id) }, true)) ∧
      (o.hasPlaceholder = false → ∀ id, o.onCardSaved id = (o, false)) := by
  intro o saved place
  obtain ⟨shown, h⟩ : ∃ shown, Arranged shown o := ⟨_, (arranged_ofList ids).run changes⟩
  have hplace : ∀ {after : CardOrder}, Arranged shown after → place after = place o :=
    fun hafter => hafter.findIdx?_isNew.trans h.findIdx?_isNew.symm
  refine ⟨fun new => ?_, fun id index movable => ?_, fun id hsaved => ⟨fun index => ?_, ?_⟩,
    fun new => hplace (h.setOrder new), fun id index => hplace (h.moveTo id index),
    fun id index => hplace (h.add id index), fun there id hsaved => ?_, fun gone id => ?_⟩
  · rw [h.currentOrder_setOrder, firstPlaces_eq_eraseDups]
  · have hmoved := currentOrder_add h (canMove_iff.1 movable).1 (some index)
    rw [insertAt, Option.getD_some, length_others h movable] at hmoved
    exact hmoved
  · exact currentOrder_add h hsaved (some index)
  · refine (currentOrder_add h hsaved none).trans ?_
    rw [insertAt, Option.getD_none, Nat.min_self, List.insertIdx_length_self]
    rfl
  · rw [h.hasPlaceholder_eq] at there
    subst there
    exact onCardSaved_of_shown h hsaved
  · rw [h.hasPlaceholder_eq] at gone
    subst gone
    exact onCardSaved_of_hidden h id

theorem saved_cards_after_placeholder :
    let card (n : Nat) : PackageId := .ofNumber n
    let o := (ofList [card 1, card 2, card 3, card 1]).run [.addNewCard]
    let later := (ofList [card 1, card 2, card 3, card 1]).run [.addNewCard, .onCardSaved (card 3)]
    o.canMove (card 1) = true ∧ (o.moveTo (card 1) 1).currentOrder = [card 2, card 1, card 3] ∧
      (o.moveTo (card 1) 9).currentOrder = [card 2, card 3, card 1] ∧
      (o.add (card 4) none).currentOrder = [card 1, card 2, card 3, card 4] ∧
      o.hasPlaceholder = true ∧
      o.onCardSaved (card 3) = ({ cards := [card 3, card 1, card 2] }, true) ∧
      later.hasPlaceholder = false ∧ later.onCardSaved (card 4) = (later, false) := by
  intro card o later
  obtain ⟨-, hmoved, hadded, -, -, -, hsaved, -⟩ :=
    saved_cards_after [card 1, card 2, card 3, card 1] [.addNewCard]
  obtain ⟨-, -, -, -, -, -, -, hnone⟩ :=
    saved_cards_after [card 1, card 2, card 3, card 1] [.addNewCard, .onCardSaved (card 3)]
  have hmovable : o.canMove (card 1) = true := by decide +kernel
  have hshown : o.hasPlaceholder = true := by decide +kernel
  have hgone : later.hasPlaceholder = false := by decide +kernel
  refine ⟨hmovable, ?_, ?_, ?_, hshown, ?_, hgone, hnone hgone (card 4)⟩
  · exact (hmoved (card 1) 1 hmovable).trans (by decide +kernel)
  · exact (hmoved (card 1) 9 hmovable).trans (by decide +kernel)
  · exact (hadded (card 4) (by decide +kernel)).2.trans (by decide +kernel)
  · exact (hsaved hshown (card 3) (by decide +kernel)).trans (by decide +kernel)

/-! ## Moving -/

/-- A card that is shown changes places with others when it is moved, and a move of the placeholder is
none. A saved card that is not shown is brought in by a move. All other cards stay in their order. -/
theorem moved_cards (ids : List PackageId) (changes : List Change) (id : PackageId) (index : Nat) :
    let o := (ofList ids).run changes
    (o.canMove id = true → (o.moveTo id index).cards.Perm o.cards) ∧
      (id.isNew = true → o.moveTo id index = o) ∧
      (o.canMove id = false → id.isNew = false →
        (o.moveTo id index).cards.Perm (id :: o.cards)) ∧
      (o.moveTo id index).cards.filter (· ≠ id) = o.cards.filter (· ≠ id) := by
  intro o
  obtain ⟨shown, h⟩ : ∃ shown, Arranged shown o := ⟨_, (arranged_ofList ids).run changes⟩
  have hstays : id.isNew = true → o.moveTo id index = o := fun new => by rw [moveTo, if_pos new]
  -- A saved card stands among the others, behind the placeholder.
  have hplaced : id.isNew = false → (o.moveTo id index).cards =
      placeholder shown ++ insertAt (o.others id) index id := fun hsaved =>
    cards_add h hsaved (some index)
  have hperm : id.isNew = false →
      (o.moveTo id index).cards.Perm (placeholder shown ++ id :: o.others id) := fun hsaved => by
    rw [hplaced hsaved]
    exact (insertAt_perm (o.others id) index id).append_left _
  refine ⟨fun movable => ?_, hstays, fun unknown hsaved => ?_, ?_⟩
  · refine (hperm (canMove_iff.1 movable).1).trans ?_
    rw [h.cards_eq]
    exact (currentOrder_perm_cons_others h movable).symm.append_left _
  · have hothers : o.others id = o.currentOrder := by
      rw [others, List.filter_eq_self]
      rintro other hmem
      rw [decide_eq_true_eq]
      rintro rfl
      rw [canMove_iff.2 ⟨hsaved, (List.mem_filter.1 hmem).1⟩] at unknown
      cases unknown
    refine (hperm hsaved).trans ?_
    rw [hothers, h.cards_eq]
    exact List.perm_middle
  · cases hnew : id.isNew with
    | true => rw [hstays hnew]
    | false =>
      rw [hplaced hnew, h.cards_eq, List.filter_append, List.filter_append, filter_insertAt]
      simp [others, List.filter_filter]

theorem moved_cards_brought_in :
    let card (n : Nat) : PackageId := .ofNumber n
    let o := (ofList [card 1, card 2, card 3]).run [.addNewCard]
    o.canMove (card 2) = true ∧ (o.moveTo (card 2) 0).cards.Perm o.cards ∧
      o.moveTo .unsaved 2 = o ∧ o.canMove (card 4) = false ∧ (card 4).isNew = false ∧
      (o.moveTo (card 4) 0).cards.Perm (card 4 :: o.cards) := by
  intro card o
  have hmovable : o.canMove (card 2) = true := by decide +kernel
  have hunknown : o.canMove (card 4) = false := by decide +kernel
  have hsaved : (card 4).isNew = false := by decide +kernel
  obtain ⟨hmoved, -⟩ := moved_cards [card 1, card 2, card 3] [.addNewCard] (card 2) 0
  obtain ⟨-, hstays, -⟩ := moved_cards [card 1, card 2, card 3] [.addNewCard] .unsaved 2
  obtain ⟨-, -, hbrought, -⟩ := moved_cards [card 1, card 2, card 3] [.addNewCard] (card 4) 0
  exact ⟨hmovable, hmoved hmovable, hstays PackageId.isNew_unsaved, hunknown, hsaved, hbrought hunknown hsaved⟩

/-- A card that has been removed comes back when it is moved. -/
theorem removed_card_comes_back :
    let card (n : Nat) : PackageId := .ofNumber n
    let o := (ofList [card 1, card 2, card 3]).run [.remove (card 3)]
    o.canMove (card 3) = false ∧ o.moveTo (card 3) 0 ≠ o ∧
      ¬(o.moveTo (card 3) 0).cards.Perm o.cards := by
  decide +kernel

end Draftboard.CardOrder
