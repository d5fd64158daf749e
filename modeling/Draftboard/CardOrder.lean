import Draftboard.Package.Codec
/-!
# Card order

The order of the cards of a card view. No card is shown twice. While a card is being created, a
placeholder with the unsaved id stands among them; the saved card takes its place.
-/

namespace Draftboard

structure CardOrder where
  cards : List PackageId := []
deriving DecidableEq, Inhabited

namespace CardOrder

/-! ## Reading -/

/-- The saved cards in order, without the placeholder. -/
def currentOrder (o : CardOrder) : List PackageId := o.cards.filter (!·.isNew)

def hasPlaceholder (o : CardOrder) : Bool := o.cards.any (·.isNew)

/-- The placeholder cannot be moved, and no card that is not shown. -/
def canMove (o : CardOrder) (id : PackageId) : Bool := !id.isNew && o.cards.contains id

def toJson (o : CardOrder) : Json := .obj [("cards", o.cards)]

/-! ## Changing -/

/-- Puts a saved card at the end, unless it has a place already. -/
def appendCard (cards : List PackageId) (id : PackageId) : List PackageId :=
  if id.isNew || cards.contains id then cards else cards ++ [id]

/-- The saved cards of a list, each at its first place. -/
def firstPlaces (ids : List PackageId) : List PackageId := ids.foldl appendCard []

/-- Puts an id at an index, or at the end when the index lies past it. -/
def insertAt (cards : List PackageId) (index : Nat) (id : PackageId) : List PackageId :=
  cards.insertIdx (min index cards.length) id

/-- Replaces the saved cards; a placeholder stays where it is. -/
def setOrder (o : CardOrder) (ids : List PackageId) : CardOrder :=
  let cards := firstPlaces ids
  match o.cards.findIdx? (·.isNew) with
  | some index => { cards := insertAt cards index .unsaved }
  | none => { cards }

def ofList (ids : List PackageId) : CardOrder := ({} : CardOrder).setOrder ids

def moveTo (o : CardOrder) (id : PackageId) (index : Nat) : CardOrder :=
  if id.isNew then o
  else o.setOrder (insertAt (o.currentOrder.filter (· ≠ id)) index id)

/-- Adds a card at an index, or at the end; a card that is shown already moves there. -/
def add (o : CardOrder) (id : PackageId) (index : Option Nat) : CardOrder :=
  if id.isNew then o
  else
    let others := o.currentOrder.filter (· ≠ id)
    o.setOrder (insertAt others (index.getD others.length) id)

def remove (o : CardOrder) (id : PackageId) : CardOrder × Bool :=
  let cards := o.cards.filter (· ≠ id)
  ({ cards }, cards.length ≠ o.cards.length)

/-- Shows the placeholder in front, unless it is shown already. -/
def addNewCard (o : CardOrder) : CardOrder :=
  if o.hasPlaceholder then o else { cards := .unsaved :: o.cards }

def removeNewCard (o : CardOrder) : CardOrder × Bool := o.remove .unsaved

/-- Puts the saved card where the placeholder stands; false when there is no placeholder. -/
def onCardSaved (o : CardOrder) (saved : PackageId) : CardOrder × Bool :=
  match o.cards.findIdx? (·.isNew) with
  | some index => (({ cards := o.cards.eraseIdx index } : CardOrder).add saved (some index), true)
  | none => (o, false)

/-! ## Small facts -/

theorem mem_insertAt {cards : List PackageId} {index : Nat} {id other : PackageId} :
    other ∈ insertAt cards index id ↔ other = id ∨ other ∈ cards :=
  List.mem_insertIdx (Nat.min_le_right index cards.length)

theorem mem_appendCard {cards : List PackageId} {id other : PackageId} :
    other ∈ appendCard cards id ↔ other ∈ cards ∨ other = id ∧ other.isNew = false := by
  unfold appendCard
  split <;> rename_i h <;> simp only [Bool.or_eq_true, List.contains_iff_mem, not_or] at h <;> grind

theorem nodup_appendCard {cards : List PackageId} {id : PackageId} (h : cards.Nodup) :
    (appendCard cards id).Nodup := by
  unfold appendCard
  split
  · exact h
  · rename_i hid
    simp only [Bool.or_eq_true, List.contains_iff_mem, not_or] at hid
    rw [List.nodup_append]
    refine ⟨h, by simp, ?_⟩
    rintro a ha b hb rfl
    exact hid.2 (List.mem_singleton.1 hb ▸ ha)

theorem mem_foldl_appendCard {ids : List PackageId} {id : PackageId} (cards : List PackageId) :
    id ∈ ids.foldl appendCard cards ↔ id ∈ cards ∨ id ∈ ids ∧ id.isNew = false := by
  induction ids generalizing cards with
  | nil => simp
  | cons first rest ih =>
    rw [List.foldl_cons, ih, mem_appendCard, List.mem_cons]
    grind

theorem nodup_foldl_appendCard (ids : List PackageId) {cards : List PackageId} (h : cards.Nodup) :
    (ids.foldl appendCard cards).Nodup := by
  induction ids generalizing cards with
  | nil => exact h
  | cons first rest ih => exact ih (nodup_appendCard h)

theorem mem_firstPlaces {ids : List PackageId} {id : PackageId} :
    id ∈ firstPlaces ids ↔ id ∈ ids ∧ id.isNew = false := by
  simp [firstPlaces, mem_foldl_appendCard]

theorem nodup_firstPlaces (ids : List PackageId) : (firstPlaces ids).Nodup :=
  nodup_foldl_appendCard ids List.nodup_nil

end CardOrder

end Draftboard
