import Draftboard.Package.Codec
/-!
# Domain events

What other parts of an application hear about saves, and the bus that carries it. The bus holds
its latest events only; a receiver that missed some learns so once and then goes on with the
oldest event held.
-/

namespace Draftboard

/-! ## Events -/

inductive DomainEvent where
  | created (id : PackageId)
  | updated (id : PackageId)
  | renamed (id : PackageId) (subject : String)
deriving DecidableEq

namespace DomainEvent

def id : DomainEvent → PackageId
  | created id | updated id | renamed id _ => id

def toJson : DomainEvent → Json
  | created id => .obj [("type", "created"), ("id", id)]
  | updated id => .obj [("type", "updated"), ("id", id)]
  | renamed id subject => .obj [("type", "renamed"), ("id", id), ("subject", subject)]

instance : ToJson DomainEvent := ⟨toJson⟩

end DomainEvent

/-! ## The bus -/

/-- All events published so far, and how many of them each receiver has passed. -/
structure EventBus where
  /-- How many of the latest events the bus holds. -/
  capacity : Nat := 64
  published : List DomainEvent := []
  positions : List Nat := []
deriving DecidableEq, Inhabited

namespace EventBus

/-- A bus that holds at least `capacity` events; the number it holds is a power of two. -/
def ofCapacity (capacity : Nat) : EventBus := { capacity := (max capacity 1).nextPowerOfTwo }

/-- Adds a receiver, which hears the events from now on; receivers are numbered from zero. -/
def subscribe (b : EventBus) : EventBus × Nat :=
  ({ b with positions := b.positions ++ [b.published.length] }, b.positions.length)

def publish (b : EventBus) (event : DomainEvent) : EventBus :=
  { b with published := b.published ++ [event] }

def receiverCount (b : EventBus) : Nat := b.positions.length

/-- How many events a receiver at a position has lost for good. -/
def missed (b : EventBus) (position : Nat) : Nat := b.published.length - b.capacity - position

/-- What a receiver gets until the first answer that is no event. One that lost events gets
nothing this time. -/
def drain (b : EventBus) (receiver : Nat) : EventBus × List DomainEvent :=
  match b.positions[receiver]? with
  | none => (b, [])
  | some position =>
    if b.missed position = 0 then
      ({ b with positions := b.positions.set receiver b.published.length }, b.published.drop position)
    else
      ({ b with positions := b.positions.set receiver (position + b.missed position) }, [])

/-! ## Small facts -/

theorem missed_eq_zero_iff {b : EventBus} {position : Nat} :
    b.missed position = 0 ↔ b.published.length ≤ position + b.capacity := by
  unfold missed
  omega

end EventBus

end Draftboard
