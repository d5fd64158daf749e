import Draftboard.Desk.State
/-!
# Views of edited work packages

What a work package looks like while it is being edited, and the pushes to those who watch: on
each change of the cache, and on each change of the registered change-set.
-/

namespace Draftboard.Desk

/-! ## The merged value -/

/-- The change-set registered for a work package, if it has edits. -/
def pendingEdits? (d : Desk) (id : PackageId) : Option Changeset :=
  ((d.registered? id).map d.changeset).filter (!·.isEmpty)

/-- The edited work package while there are edits, else the cached one. -/
def merged? (d : Desk) (id : PackageId) : Option Snapshot :=
  match d.pendingEdits? id with
  | some c => some c.projected
  | none => d.cache.get? id

def pushViews (d : Desk) (id : PackageId) : Desk :=
  let value := d.merged? id
  { d with deliveries := d.deliveries ++ (d.views.subscriptionsOf id).map fun n => .view n value }

/-! ## Changes of the cache -/

/-- Brings one message of the cache to its subscriber. -/
def deliverCache (d : Desk) (x : CacheDelivery) : Desk :=
  match x.subscription.watcher with
  | .caller => d.deliver (.cache x.subscription.number x.value (d.cachedVersion x.id))
  | .views => d.pushViews x.id

def putPackage (d : Desk) (snapshot : Snapshot) : Desk :=
  let (cache, messages) := d.cache.put snapshot
  messages.foldl deliverCache { d with cache }

def putPackages (d : Desk) (snapshots : List Snapshot) : Desk := snapshots.foldl putPackage d

def dropPackage (d : Desk) (id : PackageId) : Desk :=
  let (cache, messages) := d.cache.invalidate id
  messages.foldl deliverCache { d with cache }

/-- A message adds to what has been delivered, and changes nothing else. -/
theorem exists_deliverCache (d : Desk) (x : CacheDelivery) :
    ∃ more, d.deliverCache x = { d with deliveries := d.deliveries ++ more } := by
  unfold deliverCache
  split <;> exact ⟨_, rfl⟩

theorem exists_foldl_deliverCache (d : Desk) (messages : List CacheDelivery) :
    ∃ more, messages.foldl deliverCache d = { d with deliveries := d.deliveries ++ more } := by
  induction messages generalizing d with
  | nil => exact ⟨[], by simp⟩
  | cons first rest ih =>
    obtain ⟨now, hnow⟩ := exists_deliverCache d first
    obtain ⟨later, hlater⟩ := ih (d.deliverCache first)
    refine ⟨now ++ later, ?_⟩
    rw [List.foldl_cons, hlater, hnow, List.append_assoc]

theorem exists_putPackage (d : Desk) (snapshot : Snapshot) :
    ∃ more, d.putPackage snapshot =
      { d with cache := (d.cache.put snapshot).1, deliveries := d.deliveries ++ more } :=
  exists_foldl_deliverCache ..

theorem exists_dropPackage (d : Desk) (id : PackageId) :
    ∃ more, d.dropPackage id =
      { d with cache := (d.cache.invalidate id).1, deliveries := d.deliveries ++ more } :=
  exists_foldl_deliverCache ..

/-! ## Subscriptions -/

def subscribeCache (d : Desk) (id : PackageId) : Desk × Nat :=
  let (cache, number) := d.cache.subscribe id .caller
  ({ d with cache }, number)

def unsubscribeCache (d : Desk) (id : PackageId) (number : Nat) : Desk × Bool :=
  let (cache, removed) := d.cache.unsubscribe id number
  ({ d with cache }, removed)

/-- The first view of a work package also subscribes the views to its cache entry. -/
def linkViews (d : Desk) (id : PackageId) : Desk :=
  match d.views.cacheLinks[id]? with
  | some _ => d
  | none =>
    let (cache, link) := d.cache.subscribe id .views
    { d with cache, views := { d.views with cacheLinks := d.views.cacheLinks.insert id link } }

/-- Without views of a work package, the subscription to its cache entry ends. -/
def unlinkViews (d : Desk) (id : PackageId) : Desk :=
  match d.views.cacheLinks[id]? with
  | none => d
  | some link =>
    let (cache, _) := d.cache.unsubscribe id link
    { d with cache, views := { d.views with cacheLinks := d.views.cacheLinks.erase id } }

def subscribeView (d : Desk) (id : PackageId) : Desk × Nat :=
  let d := d.linkViews id
  let number := d.views.lastNumber + 1
  let subscriptions := d.views.subscriptions.insert id (d.views.subscriptionsOf id ++ [number])
  ({ d with views := { d.views with subscriptions, lastNumber := number } }, number)

/-- Ends a view's subscription, and tells whether there was one; the last one takes the
subscription to the cache entry along. -/
def unsubscribeView (d : Desk) (id : PackageId) (number : Nat) : Desk × Bool :=
  let before := d.views.subscriptionsOf id
  let after := before.filter (· ≠ number)
  if before = [] then (d, false)
  else if after = [] then
    let d := { d with views := { d.views with subscriptions := d.views.subscriptions.erase id } }
    (d.unlinkViews id, true)
  else
    let subscriptions := d.views.subscriptions.insert id after
    ({ d with views := { d.views with subscriptions } }, after.length ≠ before.length)

def subscribeCommits (d : Desk) : Desk × Nat :=
  let number := d.lastCommitNumber + 1
  ({ d with commitSubscriptions := d.commitSubscriptions ++ [number], lastCommitNumber := number },
    number)

def unsubscribeCommits (d : Desk) (number : Nat) : Desk × Bool :=
  let after := d.commitSubscriptions.filter (· ≠ number)
  ({ d with commitSubscriptions := after }, after.length ≠ d.commitSubscriptions.length)

end Draftboard.Desk
