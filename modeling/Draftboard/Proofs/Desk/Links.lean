import Draftboard.Proofs.Desk.Screens
import Draftboard.Proofs.Desk.Subscribers
/-!
# Views and their link to the cache

Views are numbered in the order they come. The first one of a work package brings a subscription to its
cache entry, which goes with the last one and passes what it is told on to each of them.
-/

namespace Draftboard

namespace Desk

/-! ## Who watches -/

/-- Nobody has come to watch or gone, neither at the views nor at the cache. -/
structure SameWatch (d d' : Desk) : Prop where
  views : d'.views = d.views
  subscriptions : d'.cache.subscriptions = d.cache.subscriptions

theorem SameWatch.refl (d : Desk) : d.SameWatch d := ⟨rfl, rfl⟩

theorem SameWatch.trans {first middle last : Desk} (h : first.SameWatch middle)
    (h' : middle.SameWatch last) : first.SameWatch last :=
  ⟨h'.views.trans h.views, h'.subscriptions.trans h.subscriptions⟩

theorem Change.sameWatch {d d' : Desk} {part : Part} (change : d.Change part d')
    (unwatched : part ≠ .watchers) : d.SameWatch d' := by
  cases change with
  | put x =>
    obtain ⟨more, heq⟩ := exists_putPackage d x
    rw [heq]
    exact ⟨rfl, rfl⟩
  | drop id =>
    obtain ⟨more, heq⟩ := exists_dropPackage d id
    rw [heq]
    exact ⟨rfl, (PackageCache.invalidate_keeps d.cache id).1⟩
  | watch => exact absurd rfl unwatched
  | _ => exact ⟨rfl, rfl⟩

theorem Changes.sameWatch {d d' : Desk} {parts : List Part} (changes : d.Changes parts d')
    (unwatched : .watchers ∉ parts) : d.SameWatch d' :=
  changes.lift .refl .trans fun mem change => change.sameWatch (ne_of_mem_of_not_mem mem unwatched)

/-! ## Numbers of views -/

def withoutViews (d : Desk) (id : PackageId) : Desk :=
  { d with views := { d.views with subscriptions := d.views.subscriptions.erase id } }

section Numbers

variable (d : Desk) (id : PackageId)

theorem lastNumber_subscribeView :
    (d.subscribeView id).1.views.lastNumber = d.views.lastNumber + 1 := by
  obtain ⟨cache, cacheLinks, heq, -⟩ := exists_linkViews d id
  unfold subscribeView
  rw [heq]

theorem number_subscribeView : (d.subscribeView id).2 = d.views.lastNumber + 1 := by
  obtain ⟨cache, cacheLinks, heq, -⟩ := exists_linkViews d id
  unfold subscribeView
  rw [heq]

theorem subscriptionsOf_subscribeView (other : PackageId) :
    (d.subscribeView id).1.views.subscriptionsOf other =
      if id = other then d.views.subscriptionsOf id ++ [d.views.lastNumber + 1]
      else d.views.subscriptionsOf other := by
  obtain ⟨cache, cacheLinks, heq, -⟩ := exists_linkViews d id
  unfold subscribeView
  rw [heq]
  exact d.views.subscriptionsOf_insert id other _

theorem exists_unlinkViews : ∃ cache cacheLinks,
    d.unlinkViews id = { d with cache, views := { d.views with cacheLinks } } := by
  unfold unlinkViews
  split <;> exact ⟨_, _, rfl⟩

/-- How a view goes: there is none of that work package, or no other one stays, or others do. -/
inductive Leaves (number : Nat) : Desk × Bool → Prop
  | nobody (nobody : d.views.subscriptionsOf id = []) : Leaves number (d, false)
  | last (someone : d.views.subscriptionsOf id ≠ [])
      (alone : (d.views.subscriptionsOf id).filter (· ≠ number) = []) :
      Leaves number ((d.withoutViews id).unlinkViews id, true)
  | stays {remaining : List Nat}
      (filtered : (d.views.subscriptionsOf id).filter (· ≠ number) = remaining)
      (others : remaining ≠ []) :
      Leaves number
        ({ d with views :=
            { d.views with subscriptions := d.views.subscriptions.insert id remaining } },
          remaining.length ≠ (d.views.subscriptionsOf id).length)

theorem leaves_unsubscribeView (number : Nat) : d.Leaves id number (d.unsubscribeView id number) := by
  unfold unsubscribeView
  dsimp only
  split
  · exact .nobody ‹_›
  · split
    · exact .last ‹_› ‹_›
    · exact .stays rfl ‹_›

theorem lastNumber_unsubscribeView (number : Nat) :
    (d.unsubscribeView id number).1.views.lastNumber = d.views.lastNumber := by
  have hleaves := d.leaves_unsubscribeView id number
  generalize d.unsubscribeView id number = after at hleaves
  cases hleaves with
  | nobody => rfl
  | last =>
    obtain ⟨cache, cacheLinks, heq⟩ := exists_unlinkViews (d.withoutViews id) id
    rw [heq]
    rfl
  | stays => rfl

theorem subscriptionsOf_unsubscribeView (number : Nat) (other : PackageId) :
    (d.unsubscribeView id number).1.views.subscriptionsOf other =
      if id = other then (d.views.subscriptionsOf id).filter (· ≠ number)
      else d.views.subscriptionsOf other := by
  have hleaves := d.leaves_unsubscribeView id number
  generalize d.unsubscribeView id number = after at hleaves
  cases hleaves with
  | nobody nobody =>
    split
    · rename_i heq
      rw [← heq, nobody]
      rfl
    · rfl
  | last someone alone =>
    obtain ⟨cache, cacheLinks, heq⟩ := exists_unlinkViews (d.withoutViews id) id
    rw [heq, alone]
    exact d.views.subscriptionsOf_erase id other
  | stays filtered =>
    rw [filtered]
    exact d.views.subscriptionsOf_insert id other _

theorem unsubscribeView_eq_true_iff (number : Nat) :
    (d.unsubscribeView id number).2 = true ↔ number ∈ d.views.subscriptionsOf id := by
  have hfewer : ((d.views.subscriptionsOf id).filter (· ≠ number)).length ≠
      (d.views.subscriptionsOf id).length ↔ number ∈ d.views.subscriptionsOf id := by
    rw [ne_eq, List.length_filter_eq_length_iff]
    simp
  have hleaves := d.leaves_unsubscribeView id number
  generalize d.unsubscribeView id number = after at hleaves
  cases hleaves with
  | nobody nobody => simp [nobody]
  | last someone alone =>
    rw [← hfewer, alone]
    exact iff_of_true rfl (Nat.ne_of_lt (List.length_pos_iff.2 someone))
  | stays filtered =>
    rw [← filtered, decide_eq_true_eq]
    exact hfewer

end Numbers

end Desk

/-! ## One link -/

def PackageCache.ofViews (c : PackageCache) (id : PackageId) : List CacheSubscription :=
  (c.subscriptionsOf id).filter (·.watcher = .views)

theorem PackageCache.ofViews_subscribe (c : PackageCache) (id other : PackageId) (watcher : Watcher) :
    (c.subscribe id watcher).1.ofViews other =
      if id = other ∧ watcher = .views then
        c.ofViews other ++ [{ number := c.lastNumber + 1, watcher := .views }]
      else c.ofViews other := by
  unfold ofViews
  rw [subscriptionsOf_subscribe]
  by_cases hid : id = other
  · subst hid
    cases watcher <;> simp
  · simp [hid]

theorem PackageCache.ofViews_unsubscribe (c : PackageCache) (id other : PackageId) (number : Nat) :
    (c.unsubscribe id number).1.ofViews other =
      if id = other then (c.ofViews other).filter (·.number ≠ number) else c.ofViews other := by
  unfold ofViews
  rw [subscriptionsOf_unsubscribe]
  by_cases hid : id = other
  · subst hid
    simp only [if_true, List.filter_filter, Bool.and_comm]
  · simp [hid]

namespace Desk

/-- The views of a work package have one subscription to its cache entry, and none without views. -/
inductive LinkedOnce (d : Desk) (id : PackageId) : Prop
  | unwatched (nobody : d.views.subscriptionsOf id = []) (unlinked : d.views.cacheLinks[id]? = none)
      (none : d.cache.ofViews id = [])
  | watched {number : Nat} (someone : d.views.subscriptionsOf id ≠ [])
      (linked : d.views.cacheLinks[id]? = some number)
      (once : d.cache.ofViews id = [{ number, watcher := .views }])

theorem LinkedOnce.congr {d d' : Desk} {id : PackageId} (h : d.LinkedOnce id)
    (subscriptions : d'.views.subscriptionsOf id = d.views.subscriptionsOf id)
    (cacheLinks : d'.views.cacheLinks[id]? = d.views.cacheLinks[id]?)
    (ofViews : d'.cache.ofViews id = d.cache.ofViews id) : d'.LinkedOnce id := by
  cases h with
  | unwatched nobody unlinked none =>
    exact .unwatched (subscriptions.trans nobody) (cacheLinks.trans unlinked) (ofViews.trans none)
  | watched someone linked once =>
    exact .watched (subscriptions ▸ someone) (cacheLinks.trans linked) (ofViews.trans once)

theorem SameWatch.linkedOnce {d d' : Desk} {id : PackageId} (same : d.SameWatch d')
    (h : d.LinkedOnce id) : d'.LinkedOnce id := by
  refine h.congr ?_ ?_ ?_
  · rw [same.views]
  · rw [same.views]
  · unfold PackageCache.ofViews PackageCache.subscriptionsOf
    rw [same.subscriptions]

section Linked

variable {d : Desk} {id : PackageId}

theorem exists_link_linkViews (h : d.LinkedOnce id) : ∃ number,
    (d.linkViews id).views.cacheLinks[id]? = some number ∧
      (d.linkViews id).cache.ofViews id = [{ number, watcher := .views }] := by
  unfold linkViews
  cases h with
  | unwatched nobody unlinked none =>
    rw [unlinked]
    refine ⟨d.cache.lastNumber + 1, Std.ExtTreeMap.getElem?_insert_self, ?_⟩
    exact (d.cache.ofViews_subscribe id id .views).trans (by simp [none])
  | watched someone linked once =>
    rw [linked]
    exact ⟨_, linked, once⟩

theorem linkViews_of_ne {other : PackageId} (hne : id ≠ other) :
    (d.linkViews id).views.cacheLinks[other]? = d.views.cacheLinks[other]? ∧
      (d.linkViews id).cache.ofViews other = d.cache.ofViews other := by
  unfold linkViews
  split
  · exact ⟨rfl, rfl⟩
  · refine ⟨?_, (d.cache.ofViews_subscribe id other .views).trans (by simp [hne])⟩
    simp [Std.ExtTreeMap.getElem?_insert, hne]

theorem LinkedOnce.subscribeView {other : PackageId} (h : d.LinkedOnce id) (h' : d.LinkedOnce other) :
    (d.subscribeView id).1.LinkedOnce other := by
  have hsubscriptions := d.subscriptionsOf_subscribeView id other
  by_cases hid : id = other
  · subst hid
    obtain ⟨number, hlinked, honce⟩ := exists_link_linkViews h
    refine .watched ?_ hlinked honce
    rw [hsubscriptions]
    simp
  · obtain ⟨hlinks, hofViews⟩ := d.linkViews_of_ne hid
    rw [if_neg hid] at hsubscriptions
    exact h'.congr hsubscriptions hlinks hofViews

theorem unlinkViews_of_ne {other : PackageId} (hne : id ≠ other) :
    (d.unlinkViews id).views.cacheLinks[other]? = d.views.cacheLinks[other]? ∧
      (d.unlinkViews id).cache.ofViews other = d.cache.ofViews other := by
  unfold unlinkViews
  split
  · exact ⟨rfl, rfl⟩
  · refine ⟨?_, (d.cache.ofViews_unsubscribe id other _).trans (by simp [hne])⟩
    simp [Std.ExtTreeMap.getElem?_erase, hne]

theorem unlinkViews_self {number : Nat} (linked : d.views.cacheLinks[id]? = some number)
    (once : d.cache.ofViews id = [{ number, watcher := .views }]) :
    (d.unlinkViews id).views.cacheLinks[id]? = none ∧ (d.unlinkViews id).cache.ofViews id = [] := by
  unfold unlinkViews
  rw [linked]
  refine ⟨Std.ExtTreeMap.getElem?_erase_self, (d.cache.ofViews_unsubscribe id id number).trans ?_⟩
  simp [once]

theorem LinkedOnce.unsubscribeView {other : PackageId} (h : d.LinkedOnce id)
    (h' : d.LinkedOnce other) (number : Nat) : (d.unsubscribeView id number).1.LinkedOnce other := by
  have hsubscriptions := d.subscriptionsOf_unsubscribeView id number other
  have hleaves := d.leaves_unsubscribeView id number
  generalize d.unsubscribeView id number = after at hleaves hsubscriptions
  -- Who goes from one work package leaves the link of every other alone.
  by_cases hid : id = other
  · subst hid
    rw [if_pos rfl] at hsubscriptions
    cases hleaves with
    | nobody => exact h'
    | last someone alone =>
      cases h with
      | unwatched nobody => exact absurd nobody someone
      | watched _ linked once =>
        obtain ⟨hunlinked, hnone⟩ := unlinkViews_self (d := d.withoutViews id) linked once
        exact .unwatched (hsubscriptions.trans alone) hunlinked hnone
    | stays filtered others =>
      cases h with
      | unwatched nobody => simp [nobody, eq_comm, others] at filtered
      | watched _ linked once =>
        refine .watched ?_ linked once
        rw [hsubscriptions, filtered]
        exact others
  · rw [if_neg hid] at hsubscriptions
    cases hleaves with
    | nobody => exact h'
    | last =>
      obtain ⟨hlinks, hofViews⟩ := unlinkViews_of_ne (d := d.withoutViews id) hid
      exact h'.congr hsubscriptions hlinks hofViews
    | stays => exact h'.congr hsubscriptions rfl rfl

theorem LinkedOnce.subscribeCache (h : d.LinkedOnce id) (other : PackageId) :
    (d.subscribeCache other).1.LinkedOnce id :=
  h.congr rfl rfl ((d.cache.ofViews_subscribe other id .caller).trans (by simp))

theorem LinkedOnce.unsubscribeCache (h : d.LinkedOnce id) {other : PackageId} {number : Nat}
    (spares : d.views.cacheLinks[other]? ≠ some number) :
    (d.unsubscribeCache other number).1.LinkedOnce id := by
  refine h.congr rfl rfl ((d.cache.ofViews_unsubscribe other id number).trans ?_)
  split
  · rename_i hid
    subst hid
    rw [List.filter_eq_self]
    intro s hs
    cases h with
    | unwatched nobody unlinked none => simp [none] at hs
    | watched someone linked once =>
      rw [once, List.mem_singleton] at hs
      rw [hs, decide_eq_true_eq]
      rintro rfl
      exact spares linked
  · rfl

end Linked

end Desk

/-! ## Pushes of the cache -/

def Delivery.viewed? : Delivery → Option (Nat × Option Snapshot)
  | view number value => some (number, value)
  | cache .. | commit .. | probe .. => none

namespace Desk

theorem filterMap_viewed?_told (d : Desk) (x : CacheDelivery) :
    (d.told x).filterMap Delivery.viewed? =
      if x.subscription.watcher = .views then
        (d.views.subscriptionsOf x.id).map fun n => (n, d.merged? x.id)
      else [] := by
  unfold told
  cases x.subscription.watcher with
  | caller => rfl
  | views => simp [List.filterMap_map, Function.comp_def, Delivery.viewed?]

theorem filterMap_viewed?_deliveries (d : Desk) (c : PackageCache) (id : PackageId)
    (value : Option Snapshot) :
    ((c.deliveries id value).flatMap d.told).filterMap Delivery.viewed? =
      (c.ofViews id).flatMap fun _ =>
        (d.views.subscriptionsOf id).map fun n => (n, d.merged? id) := by
  rw [List.filterMap_flatMap]
  simp only [filterMap_viewed?_told, PackageCache.deliveries, PackageCache.ofViews, List.flatMap_map]
  induction c.subscriptionsOf id with
  | nil => rfl
  | cons s rest ih => cases hw : s.watcher <;> simp [hw, ih]

theorem putPackage_pushes {d : Desk} {snapshot : Snapshot} (h : d.LinkedOnce snapshot.id) :
    ∃ more, (d.putPackage snapshot).deliveries = d.deliveries ++ more ∧
      more.filterMap Delivery.viewed? = (d.views.subscriptionsOf snapshot.id).map fun n =>
        (n, (d.putPackage snapshot).merged? snapshot.id) := by
  have heq : d.putPackage snapshot = _ :=
    foldl_deliverCache { d with cache := (d.cache.put snapshot).1 } (d.cache.put snapshot).2
  rw [heq]
  refine ⟨_, rfl, (filterMap_viewed?_deliveries _ d.cache snapshot.id (some snapshot)).trans ?_⟩
  cases h with
  | unwatched nobody unlinked none =>
    rw [none, nobody]
    rfl
  | watched someone linked once =>
    rw [once]
    exact List.append_nil _

end Desk

end Draftboard
