import Mathlib.Data.List.Induction
import Mathlib.Data.List.Nodup
import Draftboard.CardOrder
/-!
# Cards in order

Whatever is done to the order of the cards, no card is shown twice, and a placeholder stands in front
of all saved cards.
-/

namespace Draftboard.CardOrder

/-! ## Changes in order -/

inductive Change where
  | setOrder (ids : List PackageId)
  | moveTo (id : PackageId) (index : Nat)
  | add (id : PackageId) (index : Option Nat)
  | remove (id : PackageId)
  | addNewCard
  | removeNewCard
  | onCardSaved (saved : PackageId)
deriving DecidableEq

def change (o : CardOrder) : Change → CardOrder
  | .setOrder ids => o.setOrder ids
  | .moveTo id index => o.moveTo id index
  | .add id index => o.add id index
  | .remove id => (o.remove id).1
  | .addNewCard => o.addNewCard
  | .removeNewCard => o.removeNewCard.1
  | .onCardSaved saved => (o.onCardSaved saved).1

def run (o : CardOrder) (changes : List Change) : CardOrder := changes.foldl change o

namespace Change

def hides : Change → Bool
  | removeNewCard | onCardSaved _ => true
  | remove id => id.isNew
  | setOrder _ | moveTo .. | add .. | addNewCard => false

/-- Whether there is a placeholder after this change. -/
def shows (c : Change) (shown : Bool) : Bool := c = addNewCard || shown && !c.hides

theorem shows_of_hides {c : Change} (hidden : c.hides = true) (shown : Bool) :
    c.shows shown = false := by
  cases c <;> simp_all [shows, hides]

theorem shows_of_keeps {c : Change} (notShown : c ≠ addNewCard) (notHidden : c.hides = false)
    (shown : Bool) : c.shows shown = shown := by
  simp [shows, notShown, notHidden]

theorem foldl_shows_iff (changes : List Change) :
    changes.foldl (fun shown c => c.shows shown) false = true ↔
      ∃ before after, changes = before ++ addNewCard :: after ∧ ∀ c ∈ after, c.hides = false := by
  induction changes using List.reverseRecOn with
  | nil => simp
  | append_singleton changes last ih =>
    rw [List.foldl_append, List.foldl_cons, List.foldl_nil, shows, Bool.or_eq_true, Bool.and_eq_true,
      ih, decide_eq_true_eq, Bool.not_eq_true']
    constructor
    · rintro (rfl | ⟨⟨before, after, rfl, kept⟩, hlast⟩)
      · exact ⟨changes, [], rfl, by simp⟩
      · refine ⟨before, after ++ [last], by simp, fun c hc => ?_⟩
        rcases List.mem_append.1 hc with hc | hc
        · exact kept c hc
        · rw [List.mem_singleton.1 hc]
          exact hlast
    · rintro ⟨before, after, heq, kept⟩
      -- The last change is the one that adds the placeholder, or it comes after that one.
      rcases List.eq_nil_or_concat after with rfl | ⟨early, c, rfl⟩
      · exact Or.inl (List.head_eq_of_cons_eq (List.append_inj' heq rfl).2)
      · have hsplit : before ++ addNewCard :: (early ++ [c]) = (before ++ addNewCard :: early) ++ [c] := by
          simp
        rw [List.concat_eq_append, hsplit] at heq
        obtain ⟨rfl, hc⟩ := List.append_inj' heq rfl
        obtain rfl := List.head_eq_of_cons_eq hc
        exact Or.inr ⟨⟨before, early, rfl, fun c hc => kept c (by simp [hc])⟩, kept _ (by simp)⟩

end Change

/-! ## Arrangements -/

/-- Distinct saved cards, alone or with the placeholder in front of them. -/
inductive Arranged : Bool → CardOrder → Prop
  | plain {saved : List PackageId} (nodup : saved.Nodup) (known : .unsaved ∉ saved) :
      Arranged false { cards := saved }
  | withPlaceholder {saved : List PackageId} (nodup : saved.Nodup) (known : .unsaved ∉ saved) :
      Arranged true { cards := .unsaved :: saved }

theorem unsaved_not_mem_firstPlaces (ids : List PackageId) : .unsaved ∉ firstPlaces ids := by
  simp [mem_firstPlaces, PackageId.isNew_unsaved]

theorem findIdx?_isNew_eq_none {cards : List PackageId} (known : .unsaved ∉ cards) :
    cards.findIdx? (·.isNew) = none := by
  rw [List.findIdx?_eq_none_iff]
  intro id hid
  rw [← Bool.not_eq_true, PackageId.isNew_iff]
  rintro rfl
  exact known hid

theorem findIdx?_isNew_unsaved (cards : List PackageId) :
    (PackageId.unsaved :: cards).findIdx? (·.isNew) = some 0 := by
  rw [List.findIdx?_cons, PackageId.isNew_unsaved, if_pos rfl]

namespace Arranged

variable {shown : Bool} {o : CardOrder}

theorem nodup_cards (h : Arranged shown o) : o.cards.Nodup := by
  cases h with
  | plain nodup known => exact nodup
  | withPlaceholder nodup known => exact List.nodup_cons.2 ⟨known, nodup⟩

theorem mem_unsaved_iff (h : Arranged shown o) : .unsaved ∈ o.cards ↔ shown = true := by
  cases h with
  | plain nodup known => simp [known]
  | withPlaceholder nodup known => simp

theorem hasPlaceholder_eq (h : Arranged shown o) : o.hasPlaceholder = shown := by
  rw [Bool.eq_iff_iff, ← h.mem_unsaved_iff]
  simp [hasPlaceholder]

theorem head?_cards (h : Arranged shown o) (there : shown = true) :
    o.cards.head? = some .unsaved := by
  cases h with
  | plain nodup known => cases there
  | withPlaceholder nodup known => rfl

theorem setOrder (h : Arranged shown o) (ids : List PackageId) : Arranged shown (o.setOrder ids) := by
  have hnodup := nodup_firstPlaces ids
  have hknown := unsaved_not_mem_firstPlaces ids
  unfold CardOrder.setOrder
  cases h with
  | plain nodup known =>
    rw [findIdx?_isNew_eq_none known]
    exact .plain hnodup hknown
  | withPlaceholder nodup known =>
    rw [findIdx?_isNew_unsaved]
    have hfront : insertAt (firstPlaces ids) 0 .unsaved = .unsaved :: firstPlaces ids := by
      simp [insertAt]
    dsimp only
    rw [hfront]
    exact .withPlaceholder hnodup hknown

theorem moveTo (h : Arranged shown o) (id : PackageId) (index : Nat) :
    Arranged shown (o.moveTo id index) := by
  unfold CardOrder.moveTo
  split
  · exact h
  · exact h.setOrder _

theorem add (h : Arranged shown o) (id : PackageId) (index : Option Nat) :
    Arranged shown (o.add id index) := by
  unfold CardOrder.add
  split
  · exact h
  · exact h.setOrder _

theorem remove (h : Arranged shown o) (id : PackageId) :
    Arranged (shown && !id.isNew) (o.remove id).1 := by
  unfold CardOrder.remove
  cases h with
  | plain nodup known =>
    exact .plain (nodup.filter _) fun hmem => known (List.mem_filter.1 hmem).1
  | @withPlaceholder saved nodup known =>
    have hknown : .unsaved ∉ saved.filter (· ≠ id) := fun hmem => known (List.mem_filter.1 hmem).1
    by_cases hnew : id = .unsaved
    · subst hnew
      simpa [PackageId.isNew_unsaved] using Arranged.plain (nodup.filter _) hknown
    · have hsaved : id.isNew = false := by simpa [← Bool.not_eq_true] using hnew
      simpa [hsaved, List.filter_cons, Ne.symm hnew] using
        Arranged.withPlaceholder (nodup.filter _) hknown

theorem addNewCard (h : Arranged shown o) : Arranged true o.addNewCard := by
  unfold CardOrder.addNewCard
  rw [h.hasPlaceholder_eq]
  cases h with
  | plain nodup known => exact .withPlaceholder nodup known
  | withPlaceholder nodup known => exact .withPlaceholder nodup known

/-- The saved card comes into the list when the placeholder has been taken out, so none is left. -/
theorem onCardSaved (h : Arranged shown o) (saved : PackageId) :
    Arranged false (o.onCardSaved saved).1 := by
  unfold CardOrder.onCardSaved
  cases h with
  | plain nodup known =>
    rw [findIdx?_isNew_eq_none known]
    exact .plain nodup known
  | withPlaceholder nodup known =>
    rw [findIdx?_isNew_unsaved]
    exact (Arranged.plain nodup known).add saved (some 0)

theorem change (h : Arranged shown o) (c : Change) : Arranged (c.shows shown) (o.change c) := by
  cases c with
  | setOrder ids =>
    rw [Change.shows_of_keeps (by simp) rfl]
    exact h.setOrder ids
  | moveTo id index =>
    rw [Change.shows_of_keeps (by simp) rfl]
    exact h.moveTo id index
  | add id index =>
    rw [Change.shows_of_keeps (by simp) rfl]
    exact h.add id index
  | remove id => exact h.remove id
  | addNewCard => exact h.addNewCard
  | removeNewCard => exact h.remove .unsaved
  | onCardSaved saved =>
    rw [Change.shows_of_hides rfl]
    exact h.onCardSaved saved

theorem run (h : Arranged shown o) (changes : List Change) :
    Arranged (changes.foldl (fun shown c => c.shows shown) shown) (o.run changes) := by
  induction changes generalizing shown o with
  | nil => exact h
  | cons c rest ih => exact ih (h.change c)

end Arranged

theorem arranged_ofList (ids : List PackageId) : Arranged false (ofList ids) :=
  (Arranged.plain List.nodup_nil List.not_mem_nil).setOrder ids

/-! ## Every order of cards -/

/-- No card is ever shown twice. There is one placeholder at most, and it comes first. It is there just
if it was added after all that hides it, and nothing else brings it or takes it away. -/
theorem cards_in_order (ids : List PackageId) (changes : List Change) :
    let o := (ofList ids).run changes
    o.cards.Nodup ∧ o.cards.count .unsaved ≤ 1 ∧
      (o.hasPlaceholder = true → o.cards.head? = some .unsaved) ∧
      (o.hasPlaceholder = true ↔ ∃ before after, changes = before ++ .addNewCard :: after ∧
        ∀ c ∈ after, c.hides = false) ∧
      ∀ c, c ≠ .addNewCard → c.hides = false → (o.change c).hasPlaceholder = o.hasPlaceholder := by
  intro o
  have h : Arranged (changes.foldl (fun shown c => c.shows shown) false) o :=
    (arranged_ofList ids).run changes
  refine ⟨h.nodup_cards, List.nodup_iff_count_le_one.1 h.nodup_cards _, ?_, ?_, ?_⟩
  · rw [h.hasPlaceholder_eq]
    exact h.head?_cards
  · rw [h.hasPlaceholder_eq, Change.foldl_shows_iff]
  · intro c notShown notHidden
    rw [(h.change c).hasPlaceholder_eq, h.hasPlaceholder_eq, c.shows_of_keeps notShown notHidden]

theorem cards_in_order_saved_twice :
    let card (n : Nat) : PackageId := .ofNumber n
    let changes : List Change := [.addNewCard, .onCardSaved (card 2), .addNewCard, .add .unsaved none,
      .moveTo (card 3) 0]
    let o := (ofList [card 1, card 2, card 1, .unsaved, card 3]).run changes
    o.cards = [.unsaved, card 3, card 2, card 1] ∧ o.cards.Nodup ∧
      (∃ before after, changes = before ++ .addNewCard :: after ∧ ∀ c ∈ after, c.hides = false) ∧
      (o.change (.add (card 1) (some 0))).hasPlaceholder = true := by
  intro card changes o
  obtain ⟨hnodup, -, -, hshown, hkept⟩ := cards_in_order [card 1, card 2, card 1, .unsaved, card 3] changes
  have hplaceholder : o.hasPlaceholder = true := by decide +kernel
  refine ⟨by decide +kernel, hnodup, hshown.1 hplaceholder, ?_⟩
  exact (hkept (.add (card 1) (some 0)) (by decide) rfl).trans hplaceholder

end Draftboard.CardOrder
