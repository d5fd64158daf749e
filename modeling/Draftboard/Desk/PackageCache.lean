import Draftboard.Package.Snapshot
/-!
# The package cache

The last known snapshot of each work package, and who hears of its changes. An entry is replaced
as a whole; each replacement and each removal is delivered to the subscribers of that id.
-/

namespace Draftboard

/-- Who stands behind a subscription. -/
inductive Watcher where
  | caller
  /-- The views of the id, which hear of the cache through one subscription. -/
  | views
deriving DecidableEq, Inhabited

structure CacheSubscription where
  number : Nat
  watcher : Watcher
deriving DecidableEq, Inhabited

/-- One message to one subscriber: the new snapshot, or nothing after a removal. -/
structure CacheDelivery where
  id : PackageId
  subscription : CacheSubscription
  value : Option Snapshot
deriving DecidableEq, Inhabited

structure PackageCache where
  entries : IdMap Snapshot := ∅
  /-- Subscriptions by id, in the order they were made; no list is empty. -/
  subscriptions : IdMap (List CacheSubscription) := ∅
  lastNumber : Nat := 0
deriving DecidableEq, Inhabited

namespace PackageCache

/-! ## Entries -/

def get? (c : PackageCache) (id : PackageId) : Option Snapshot := c.entries[id]?

def contains (c : PackageCache) (id : PackageId) : Bool := (c.get? id).isSome

def subscriptionsOf (c : PackageCache) (id : PackageId) : List CacheSubscription :=
  c.subscriptions[id]?.getD []

/-- The messages that tell the subscribers of an id about a value. -/
def deliveries (c : PackageCache) (id : PackageId) (value : Option Snapshot) : List CacheDelivery :=
  (c.subscriptionsOf id).map fun subscription => { id, subscription, value }

def put (c : PackageCache) (snapshot : Snapshot) : PackageCache × List CacheDelivery :=
  ({ c with entries := c.entries.insert snapshot.id snapshot },
    c.deliveries snapshot.id (some snapshot))

/-- Puts snapshots one after the other. -/
def putAll (c : PackageCache) : List Snapshot → PackageCache × List CacheDelivery
  | [] => (c, [])
  | snapshot :: rest =>
    let (c, here) := c.put snapshot
    let (c, later) := c.putAll rest
    (c, here ++ later)

/-- Removes an entry; where there was none, nobody hears of it. -/
def invalidate (c : PackageCache) (id : PackageId) : PackageCache × List CacheDelivery :=
  if c.contains id then ({ c with entries := c.entries.erase id }, c.deliveries id none)
  else (c, [])

/-! ## Subscriptions -/

def subscribe (c : PackageCache) (id : PackageId) (watcher : Watcher) : PackageCache × Nat :=
  let number := c.lastNumber + 1
  ({ c with
      subscriptions := c.subscriptions.insert id (c.subscriptionsOf id ++ [{ number, watcher }])
      lastNumber := number },
    number)

def unsubscribe (c : PackageCache) (id : PackageId) (number : Nat) : PackageCache × Bool :=
  let before := c.subscriptionsOf id
  let after := before.filter (·.number ≠ number)
  let subscriptions := if after = [] then c.subscriptions.erase id else c.subscriptions.insert id after
  ({ c with subscriptions }, after.length ≠ before.length)

/-! ## Small facts -/

theorem get?_put (c : PackageCache) (snapshot : Snapshot) (id : PackageId) :
    (c.put snapshot).1.get? id = if snapshot.id = id then some snapshot else c.get? id := by
  simp [put, get?, Std.ExtTreeMap.getElem?_insert]

theorem get?_invalidate (c : PackageCache) (id other : PackageId) :
    (c.invalidate id).1.get? other = if id = other then none else c.get? other := by
  by_cases h : c.entries[id]?.isSome = true
  · simp [invalidate, contains, get?, h, Std.ExtTreeMap.getElem?_erase]
  · simp only [invalidate, contains, get?, h]
    by_cases heq : id = other
    · subst heq
      simpa using h
    · simp [heq]

theorem subscriptionsOf_subscribe (c : PackageCache) (id other : PackageId) (watcher : Watcher) :
    (c.subscribe id watcher).1.subscriptionsOf other =
      if id = other then c.subscriptionsOf id ++ [{ number := c.lastNumber + 1, watcher }]
      else c.subscriptionsOf other := by
  simp only [subscribe, subscriptionsOf, Std.ExtTreeMap.getElem?_insert,
    Std.LawfulEqOrd.compare_eq_iff_eq]
  split <;> rfl

theorem subscriptionsOf_unsubscribe (c : PackageCache) (id other : PackageId) (number : Nat) :
    (c.unsubscribe id number).1.subscriptionsOf other =
      if id = other then (c.subscriptionsOf id).filter (·.number ≠ number)
      else c.subscriptionsOf other := by
  unfold unsubscribe
  dsimp only
  by_cases hother : id = other
  · subst hother
    rw [if_pos rfl]
    split
    · rename_i hnone
      rw [hnone]
      simp [subscriptionsOf]
    · simp [subscriptionsOf]
  · rw [if_neg hother]
    split <;> simp [subscriptionsOf, Std.ExtTreeMap.getElem?_insert, Std.ExtTreeMap.getElem?_erase, hother]

end PackageCache

end Draftboard
