import Mathlib.Data.List.Basic
import Mathlib.Data.List.Induction
import Draftboard.Proofs.Desk.Pushes
/-!
# Subscribers of the cache

Between coming and going a subscriber of an id hears each value that the entry of the id takes, and
nothing else. Subscribers come and go in any order, under any ids and with any numbers.
-/

namespace Draftboard

namespace PackageCache

/-! ## Runs -/

inductive Event where
  | put (snapshot : Snapshot)
  | putAll (snapshots : List Snapshot)
  | invalidate (id : PackageId)
  | subscribe (id : PackageId) (watcher : Watcher)
  | unsubscribe (id : PackageId) (number : Nat)
deriving DecidableEq

def on (c : PackageCache) : Event → PackageCache × List CacheDelivery
  | .put snapshot => c.put snapshot
  | .putAll snapshots => c.putAll snapshots
  | .invalidate id => c.invalidate id
  | .subscribe id watcher => ((c.subscribe id watcher).1, [])
  | .unsubscribe id number => ((c.unsubscribe id number).1, [])

/-- The cache after some events, and all messages that went out. -/
def feed : PackageCache → List Event → PackageCache × List CacheDelivery
  | c, [] => (c, [])
  | c, event :: rest =>
    let here := c.on event
    let later := feed here.1 rest
    (later.1, here.2 ++ later.2)

def received (number : Nat) (messages : List CacheDelivery) : List (Option Snapshot) :=
  (messages.filter (·.subscription.number = number)).map (·.value)

theorem feed_append (c : PackageCache) (first rest : List Event) :
    c.feed (first ++ rest) =
      let here := c.feed first
      let later := here.1.feed rest
      (later.1, here.2 ++ later.2) := by
  induction first generalizing c with
  | nil => simp [feed]
  | cons event more ih => simp [feed, ih]

theorem received_append (number : Nat) (first rest : List CacheDelivery) :
    received number (first ++ rest) = received number first ++ received number rest := by
  simp [received]

/-! ## Values of an entry -/

/-- The values that an event gives to the entry of an id. A removal counts only if there is an entry. -/
def Event.values (id : PackageId) (entry : Option Snapshot) : Event → List (Option Snapshot)
  | put snapshot => if snapshot.id = id then [some snapshot] else []
  | putAll snapshots => (snapshots.filter (·.id = id)).map some
  | invalidate other => if other = id ∧ entry.isSome then [none] else []
  | subscribe .. | unsubscribe .. => []

def lastValue (entry : Option Snapshot) (values : List (Option Snapshot)) : Option Snapshot :=
  values.getLast?.getD entry

def values (id : PackageId) : Option Snapshot → List Event → List (Option Snapshot)
  | _, [] => []
  | entry, event :: rest =>
    let here := event.values id entry
    here ++ values id (lastValue entry here) rest

theorem lastValue_append (entry : Option Snapshot) (first rest : List (Option Snapshot)) :
    lastValue entry (first ++ rest) = lastValue (lastValue entry first) rest := by
  simp [lastValue, List.getLast?_append, Option.getD_or]

theorem Event.values_putAll_cons (id : PackageId) (entry : Option Snapshot) (snapshot : Snapshot)
    (rest : List Snapshot) :
    (putAll (snapshot :: rest)).values id entry =
      (put snapshot).values id entry ++ (putAll rest).values id entry := by
  by_cases hid : snapshot.id = id <;> simp [values, hid]

theorem get?_put_eq_lastValue (c : PackageCache) (snapshot : Snapshot) (id : PackageId) :
    (c.put snapshot).1.get? id =
      lastValue (c.get? id) ((Event.put snapshot).values id (c.get? id)) := by
  rw [get?_put, Event.values]
  split <;> rfl

theorem get?_putAll (c : PackageCache) (snapshots : List Snapshot) (id : PackageId) :
    (c.putAll snapshots).1.get? id =
      lastValue (c.get? id) ((Event.putAll snapshots).values id (c.get? id)) := by
  induction snapshots generalizing c with
  | nil => rfl
  | cons snapshot rest ih =>
    rw [Event.values_putAll_cons, lastValue_append, ← get?_put_eq_lastValue]
    exact ih (c.put snapshot).1

theorem get?_on (c : PackageCache) (event : Event) (id : PackageId) :
    (c.on event).1.get? id = lastValue (c.get? id) (event.values id (c.get? id)) := by
  cases event with
  | put snapshot => exact get?_put_eq_lastValue c snapshot id
  | putAll snapshots => exact get?_putAll c snapshots id
  | invalidate other =>
    refine (get?_invalidate c other id).trans ?_
    simp only [Event.values]
    by_cases hid : other = id
    · cases hentry : c.get? id <;> simp [hid, lastValue]
    · simp [hid, lastValue]
  | subscribe other watcher => rfl
  | unsubscribe other number => rfl

theorem get?_feed (c : PackageCache) (events : List Event) (id : PackageId) :
    (c.feed events).1.get? id = lastValue (c.get? id) (values id (c.get? id) events) := by
  induction events generalizing c with
  | nil => rfl
  | cons event rest ih =>
    rw [values, lastValue_append, ← get?_on]
    exact ih (c.on event).1

/-! ## Subscriptions by number -/

def standing (c : PackageCache) (id : PackageId) (number : Nat) : Nat :=
  (c.subscriptionsOf id).countP (·.number = number)

theorem received_deliveries (c : PackageCache) (id : PackageId) (value : Option Snapshot)
    (number : Nat) :
    received number (c.deliveries id value) = List.replicate (c.standing id number) value := by
  simp only [received, deliveries, List.filter_map, List.map_map, standing, List.countP_eq_length_filter]
  exact List.map_const' ..

theorem putAll_keeps (c : PackageCache) (snapshots : List Snapshot) :
    (c.putAll snapshots).1.subscriptions = c.subscriptions ∧
      (c.putAll snapshots).1.lastNumber = c.lastNumber := by
  induction snapshots generalizing c with
  | nil => exact ⟨rfl, rfl⟩
  | cons snapshot rest ih => exact ih (c.put snapshot).1

theorem invalidate_keeps (c : PackageCache) (id : PackageId) :
    (c.invalidate id).1.subscriptions = c.subscriptions ∧
      (c.invalidate id).1.lastNumber = c.lastNumber := by
  unfold invalidate
  split <;> exact ⟨rfl, rfl⟩

theorem messages_invalidate (c : PackageCache) (id : PackageId) :
    (c.invalidate id).2 = if (c.get? id).isSome then c.deliveries id none else [] := by
  unfold invalidate contains
  split <;> rfl

theorem standing_congr {c c' : PackageCache} (h : c'.subscriptions = c.subscriptions) (id : PackageId)
    (number : Nat) : c'.standing id number = c.standing id number := by
  unfold standing subscriptionsOf
  rw [h]

theorem standing_on (c : PackageCache) (event : Event) (id : PackageId) (number : Nat) :
    (c.on event).1.standing id number =
      match event with
      | .subscribe other _ =>
        c.standing id number + if other = id ∧ c.lastNumber + 1 = number then 1 else 0
      | .unsubscribe other gone => if other = id ∧ gone = number then 0 else c.standing id number
      | .put _ | .putAll _ | .invalidate _ => c.standing id number := by
  cases event with
  | put snapshot => rfl
  | putAll snapshots => exact standing_congr (putAll_keeps c snapshots).1 id number
  | invalidate other => exact standing_congr (invalidate_keeps c other).1 id number
  | subscribe other watcher =>
    simp only [on, standing, subscriptionsOf_subscribe]
    by_cases hid : other = id
    · subst hid
      simp [List.countP_append, List.countP_singleton]
    · simp [hid]
  | unsubscribe other gone =>
    simp only [on, standing, subscriptionsOf_unsubscribe]
    by_cases hid : other = id
    · subst hid
      by_cases hgone : gone = number
      · subst hgone
        simp [List.countP_filter]
      · simp only [hgone, and_false, if_false, if_true, List.countP_filter]
        refine List.countP_congr fun x _ => ?_
        simp only [Bool.and_eq_true, decide_eq_true_eq, and_iff_left_iff_imp]
        rintro rfl
        exact fun h => hgone h.symm
    · simp [hid]

theorem lastNumber_on (c : PackageCache) (event : Event) :
    (c.on event).1.lastNumber =
      match event with
      | .subscribe .. => c.lastNumber + 1
      | .put _ | .putAll _ | .invalidate _ | .unsubscribe .. => c.lastNumber := by
  cases event with
  | put snapshot => rfl
  | putAll snapshots => exact (putAll_keeps c snapshots).2
  | invalidate other => exact (invalidate_keeps c other).2
  | subscribe other watcher => rfl
  | unsubscribe other number => rfl

theorem lastNumber_le_on (c : PackageCache) (event : Event) :
    c.lastNumber ≤ (c.on event).1.lastNumber := by
  rw [lastNumber_on]
  split <;> omega

theorem lastNumber_le_feed (c : PackageCache) (events : List Event) :
    c.lastNumber ≤ (c.feed events).1.lastNumber := by
  induction events generalizing c with
  | nil => exact Nat.le_refl _
  | cons event rest ih => exact Nat.le_trans (lastNumber_le_on c event) (ih _)

theorem unsubscribe_eq_true_iff (c : PackageCache) (id : PackageId) (number : Nat) :
    (c.unsubscribe id number).2 = true ↔ 0 < c.standing id number := by
  have hcount := List.length_eq_countP_add_countP (fun x : CacheSubscription => decide (x.number ≠ number))
    (l := c.subscriptionsOf id)
  simp only [unsubscribe, standing, decide_eq_true_eq, ← List.countP_eq_length_filter]
  simp only [ne_eq, decide_not, Bool.not_not, Bool.not_eq_true', decide_eq_false_iff_not] at hcount ⊢
  omega

/-! ## What one subscriber hears -/

section Subscriber

variable {c : PackageCache} {id : PackageId} {number : Nat}

theorem received_put (only : ∀ other, id ≠ other → c.standing other number = 0) (snapshot : Snapshot) :
    received number (c.put snapshot).2 =
      ((Event.put snapshot).values id (c.get? id)).flatMap (List.replicate (c.standing id number)) := by
  refine (received_deliveries c snapshot.id (some snapshot) number).trans ?_
  by_cases hid : snapshot.id = id
  · simp [Event.values, hid]
  · simp [Event.values, hid, only _ (Ne.symm hid)]

theorem received_putAll (only : ∀ other, id ≠ other → c.standing other number = 0)
    (snapshots : List Snapshot) :
    received number (c.putAll snapshots).2 = ((Event.putAll snapshots).values id (c.get? id)).flatMap
      (List.replicate (c.standing id number)) := by
  induction snapshots generalizing c with
  | nil => rfl
  | cons snapshot rest ih =>
    rw [Event.values_putAll_cons, List.flatMap_append, ← received_put only snapshot]
    refine (received_append number (c.put snapshot).2 _).trans (congrArg _ ?_)
    exact @ih (c.put snapshot).1 only

theorem received_on (only : ∀ other, id ≠ other → c.standing other number = 0) (event : Event) :
    received number (c.on event).2 =
      (event.values id (c.get? id)).flatMap (List.replicate (c.standing id number)) := by
  cases event with
  | put snapshot => exact received_put only snapshot
  | putAll snapshots => exact received_putAll only snapshots
  | invalidate other =>
    refine (congrArg (received number) (messages_invalidate c other)).trans ?_
    by_cases hentry : (c.get? other).isSome
    · rw [if_pos hentry, received_deliveries]
      by_cases hid : other = id
      · subst hid
        simp [Event.values, hentry]
      · simp [Event.values, hid, only _ (Ne.symm hid)]
    · rw [if_neg hentry]
      by_cases hid : other = id
      · subst hid
        simp [Event.values, hentry, received]
      · simp [Event.values, hid, received]
  | subscribe other watcher => rfl
  | unsubscribe other gone => rfl

/-- Nobody is subscribed under this number. -/
def Lacks (c : PackageCache) (number : Nat) : Prop := ∀ id, c.standing id number = 0

theorem Lacks.feed (h : c.Lacks number) {events : List Event}
    (aside : number ≤ c.lastNumber ∨ (c.feed events).1.lastNumber < number) :
    (c.feed events).1.Lacks number ∧ received number (c.feed events).2 = [] := by
  induction events generalizing c with
  | nil => exact ⟨h, rfl⟩
  | cons event rest ih =>
    have hgrows : (c.on event).1.lastNumber ≤ (c.feed (event :: rest)).1.lastNumber :=
      lastNumber_le_feed (c.on event).1 rest
    have hnext : (c.on event).1.Lacks number := by
      intro id
      rw [standing_on]
      cases event with
      | put | putAll | invalidate => exact h id
      | subscribe other watcher =>
        rw [lastNumber_on] at hgrows
        dsimp only at hgrows ⊢
        rw [h id, if_neg]
        omega
      | unsubscribe other gone =>
        dsimp only
        rw [h id, ite_self]
    have haside : number ≤ (c.on event).1.lastNumber ∨ ((c.on event).1.feed rest).1.lastNumber < number :=
      aside.imp_left fun hle => Nat.le_trans hle (lastNumber_le_on c event)
    obtain ⟨hlast, hsilent⟩ := ih hnext haside
    refine ⟨hlast, ?_⟩
    have hhere := received_on (fun other (_ : .unsaved ≠ other) => h other) event
    rw [h .unsaved] at hhere
    simp only [PackageCache.feed, received_append, hhere, hsilent]
    simp

/-- One subscription has this number, and it is one of this id. -/
structure Holds (c : PackageCache) (id : PackageId) (number : Nat) : Prop where
  once : c.standing id number = 1
  only : ∀ other, id ≠ other → c.standing other number = 0
  number_le : number ≤ c.lastNumber

theorem Holds.received_on (h : c.Holds id number) (event : Event) :
    received number (c.on event).2 = event.values id (c.get? id) := by
  rw [PackageCache.received_on h.only event, h.once]
  exact List.flatMap_singleton' _

theorem Holds.on (h : c.Holds id number) {event : Event} (stays : event ≠ .unsubscribe id number) :
    (c.on event).1.Holds id number := by
  have hle := Nat.le_trans h.number_le (lastNumber_le_on c event)
  -- A new subscription has a number of its own, and this one ends under its own id only.
  have hsame : ∀ other, (c.on event).1.standing other number = c.standing other number ∨
      id ≠ other ∧ (c.on event).1.standing other number = 0 := by
    intro other
    rw [standing_on]
    cases event with
    | put | putAll | invalidate => exact Or.inl rfl
    | subscribe new watcher =>
      have hgiven : c.lastNumber + 1 ≠ number := by
        have := h.number_le
        omega
      simp [hgiven]
    | unsubscribe other' gone =>
      dsimp only
      split
      · rename_i hgone
        obtain ⟨rfl, rfl⟩ := hgone
        exact Or.inr ⟨fun heq => stays (by rw [heq]), rfl⟩
      · exact Or.inl rfl
  refine ⟨?_, fun other hne => ?_, hle⟩
  · rcases hsame id with hid | ⟨hne, -⟩
    · exact hid.trans h.once
    · exact absurd rfl hne
  · rcases hsame other with hother | ⟨-, hzero⟩
    · exact hother.trans (h.only other hne)
    · exact hzero

theorem Holds.feed (h : c.Holds id number) {events : List Event}
    (stays : .unsubscribe id number ∉ events) : (c.feed events).1.Holds id number := by
  induction events generalizing c with
  | nil => exact h
  | cons event rest ih =>
    rw [List.mem_cons, not_or] at stays
    exact ih (h.on (Ne.symm stays.1)) stays.2

theorem Holds.lacks_unsubscribe (h : c.Holds id number) :
    (c.on (.unsubscribe id number)).1.Lacks number := by
  intro other
  rw [standing_on]
  by_cases hid : id = other
  · simp [hid]
  · simp [hid, h.only other hid]

/-- A subscriber hears all values of its id until it goes. -/
theorem Holds.received_feed (h : c.Holds id number) (events : List Event) :
    received number (c.feed events).2 =
      values id (c.get? id) (events.takeWhile (· ≠ .unsubscribe id number)) := by
  induction events generalizing c with
  | nil => rfl
  | cons event rest ih =>
    simp only [PackageCache.feed, received_append]
    by_cases hgoes : event = .unsubscribe id number
    · subst hgoes
      have hle := Nat.le_trans h.number_le (lastNumber_le_on c (.unsubscribe id number))
      rw [(h.lacks_unsubscribe.feed (Or.inl hle)).2, List.takeWhile_cons_of_neg (by simp)]
      rfl
    · rw [List.takeWhile_cons_of_pos (by simpa using hgoes), values, ← get?_on, ih (h.on hgoes),
        h.received_on event]

end Subscriber

/-! ## Coming and going -/

/-- A subscriber of an id was given this number, and it has not gone since. -/
def Subscribed (events : List Event) (id : PackageId) (number : Nat) : Prop :=
  ∃ before watcher later, events = before ++ .subscribe id watcher :: later ∧
    ((({} : PackageCache).feed before).1.subscribe id watcher).2 = number ∧
    .unsubscribe id number ∉ later

theorem lacks_empty (number : Nat) : Lacks {} number := by
  intro id
  simp [standing, subscriptionsOf]

theorem lacks_feed_empty {events : List Event} {number : Nat}
    (later : (({} : PackageCache).feed events).1.lastNumber < number) :
    (({} : PackageCache).feed events).1.Lacks number ∧
      received number (({} : PackageCache).feed events).2 = [] :=
  (lacks_empty number).feed (Or.inr later)

theorem holds_subscribe {c : PackageCache} (h : c.Lacks (c.lastNumber + 1)) (id : PackageId)
    (watcher : Watcher) : (c.on (.subscribe id watcher)).1.Holds id (c.lastNumber + 1) where
  once := by simp [standing_on, h id]
  only other hne := by simp [standing_on, h other, hne]
  number_le := Nat.le_refl _

theorem holds_feed_subscribe (before : List Event) (id : PackageId) (watcher : Watcher) :
    let start := (({} : PackageCache).feed before).1
    (start.on (.subscribe id watcher)).1.Holds id (start.subscribe id watcher).2 :=
  holds_subscribe (lacks_feed_empty (Nat.lt_succ_self _)).1 id watcher

theorem Subscribed.concat {events : List Event} {id : PackageId} {number : Nat}
    (h : Subscribed events id number) {event : Event} (stays : event ≠ .unsubscribe id number) :
    Subscribed (events ++ [event]) id number := by
  obtain ⟨before, watcher, later, rfl, hnumber, hlater⟩ := h
  refine ⟨before, watcher, later ++ [event], by simp, hnumber, ?_⟩
  simp [hlater, Ne.symm stays]

theorem subscribed_of_standing {events : List Event} {id : PackageId} {number : Nat}
    (there : 0 < (({} : PackageCache).feed events).1.standing id number) :
    Subscribed events id number := by
  induction events using List.reverseRecOn with
  | nil =>
    rw [feed, lacks_empty number id] at there
    cases there
  | append_singleton events event ih =>
    simp only [feed_append, feed, standing_on] at there
    cases event with
    | put | putAll | invalidate => exact (ih there).concat (by simp)
    | subscribe other watcher =>
      dsimp only at there
      split at there
      · rename_i hnew
        obtain ⟨rfl, rfl⟩ := hnew
        exact ⟨events, watcher, [], rfl, rfl, by simp⟩
      · exact (ih there).concat (by simp)
    | unsubscribe other gone =>
      dsimp only at there
      split at there
      · cases there
      · rename_i hother
        refine (ih there).concat ?_
        rintro heq
        cases heq
        exact hother ⟨rfl, rfl⟩

theorem standing_of_subscribed {events : List Event} {id : PackageId} {number : Nat}
    (h : Subscribed events id number) :
    0 < (({} : PackageCache).feed events).1.standing id number := by
  obtain ⟨before, watcher, later, rfl, rfl, hlater⟩ := h
  simp only [feed_append, feed]
  rw [((holds_feed_subscribe before id watcher).feed hlater).once]
  exact Nat.one_pos

/-! ## The whole run -/

/-- Whoever subscribes to an id receives all values that the entry of the id takes from then on, in
order, until that subscription is ended, and nothing else. An end is reported just if there was such a
subscription still. The cached snapshot is the last of the values. -/
theorem subscribers_hear_values (events : List Event) :
    let c := ({} : PackageCache).feed events
    (∀ before id watcher rest, events = before ++ .subscribe id watcher :: rest →
      let start := (({} : PackageCache).feed before).1
      let number := (start.subscribe id watcher).2
      received number c.2 =
        values id (start.get? id) (rest.takeWhile (· ≠ .unsubscribe id number))) ∧
      (∀ id number, (c.1.unsubscribe id number).2 = true ↔ Subscribed events id number) ∧
      ∀ id, c.1.get? id = lastValue none (values id none events) := by
  intro c
  refine ⟨?_, fun id number => ?_, fun id => ?_⟩
  · rintro before id watcher rest rfl start number
    have hholds := holds_feed_subscribe before id watcher
    have hentry : (start.on (.subscribe id watcher)).1.get? id = start.get? id := rfl
    have hsilent : received number (({} : PackageCache).feed before).2 = [] :=
      (lacks_feed_empty (Nat.lt_succ_self _)).2
    have hrun : c.2 = (({} : PackageCache).feed before).2 ++
        ((start.on (.subscribe id watcher)).1.feed rest).2 := by
      simp only [c, feed_append, feed, start]
      rfl
    rw [hrun, received_append, hsilent, List.nil_append, hholds.received_feed rest, hentry]
  · rw [unsubscribe_eq_true_iff]
    exact ⟨subscribed_of_standing, standing_of_subscribed⟩
  · refine (get?_feed {} events id).trans ?_
    rw [show ({} : PackageCache).get? id = none by simp [get?]]

theorem subscribers_hear_values_in_turn :
    let one : PackageId := { text := "1" }
    let version (lockVersion : Nat) : Snapshot := { id := one, lockVersion, typeHref := "task" }
    let other : Snapshot := { id := { text := "2" }, typeHref := "task" }
    let before : List Event := [.subscribe one .caller, .put (version 1)]
    let rest : List Event := [.unsubscribe other.id 1, .putAll [other, version 2], .unsubscribe one 1,
      .invalidate one, .invalidate one, .put (version 3)]
    let c := ({} : PackageCache).feed (before ++ .subscribe one .views :: rest)
    received 1 c.2 = [some (version 1), some (version 2)] ∧
      received 2 c.2 = [some (version 2), none, some (version 3)] ∧
      (c.1.unsubscribe one 1).2 = false ∧ Subscribed (before ++ .subscribe one .views :: rest) one 2 ∧
      c.1.get? one = some (version 3) := by
  intro one version other before rest c
  obtain ⟨hreceived, hended, hcached⟩ := subscribers_hear_values (before ++ .subscribe one .views :: rest)
  refine ⟨?_, ?_, by decide +kernel, (hended one 2).1 (by decide +kernel), ?_⟩
  · refine (hreceived [] one .caller (.put (version 1) :: .subscribe one .views :: rest) rfl).trans ?_
    decide +kernel
  · refine (hreceived before one .views rest rfl).trans ?_
    decide +kernel
  · refine (hcached one).trans ?_
    decide +kernel

end PackageCache

/-! ## On a desk -/

def Delivery.cached? : Delivery → Option (Nat × Option Snapshot)
  | cache number value _ => some (number, value)
  | view .. | commit .. | probe .. => none

def CacheDelivery.toCaller? (x : CacheDelivery) : Option (Nat × Option Snapshot) :=
  match x.subscription.watcher with
  | .caller => some (x.subscription.number, x.value)
  | .views => none

namespace Desk

theorem filterMap_cached?_told (d : Desk) (x : CacheDelivery) :
    (d.told x).filterMap Delivery.cached? = x.toCaller?.toList := by
  unfold told CacheDelivery.toCaller?
  cases x.subscription.watcher with
  | caller => rfl
  | views => simp [Delivery.cached?, List.filterMap_map, Function.comp_def]

theorem filterMap_cached?_foldl (d : Desk) (messages : List CacheDelivery) :
    (messages.foldl deliverCache d).deliveries.filterMap Delivery.cached? =
      d.deliveries.filterMap Delivery.cached? ++ messages.filterMap CacheDelivery.toCaller? := by
  rw [foldl_deliverCache, List.filterMap_append, List.filterMap_flatMap]
  simp only [filterMap_cached?_told]
  rw [← List.filterMap_eq_flatMap_toList]

/-- Snapshots put on a desk at once are put into its cache one after the other. -/
theorem putPackages_eq_putAll (d : Desk) (snapshots : List Snapshot) :
    (d.putPackages snapshots).cache = (d.cache.putAll snapshots).1 ∧
      (d.putPackages snapshots).deliveries.filterMap Delivery.cached? =
        d.deliveries.filterMap Delivery.cached? ++
          (d.cache.putAll snapshots).2.filterMap CacheDelivery.toCaller? := by
  induction snapshots generalizing d with
  | nil => simp [putPackages, PackageCache.putAll]
  | cons snapshot rest ih =>
    obtain ⟨hcache, hheard⟩ := ih (d.putPackage snapshot)
    rw [cache_putPackage] at hcache hheard
    refine ⟨hcache, hheard.trans ?_⟩
    rw [show d.putPackage snapshot = (d.cache.put snapshot).2.foldl deliverCache
        { d with cache := (d.cache.put snapshot).1 } from rfl,
      filterMap_cached?_foldl, List.append_assoc, ← List.filterMap_append]
    rfl

end Desk

end Draftboard
