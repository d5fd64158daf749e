import Draftboard.Proofs.Desk.Course
import Draftboard.Proofs.Desk.Links
/-!
# Subscribers of views

Views come and go in any order, among whatever else is done. While one of a work package is there, one
subscription of the cache stands for all of them, and what is put is pushed to each of them once.
-/

namespace Draftboard.BusyDesk

/-! ## Visits -/

def Event.watch (id : PackageId) : Event := .move (.act (.subscribe id) trivial)

/-- The view with a number goes, if it is one of that work package. -/
def Event.unwatch (id : PackageId) (number : Nat) : Event :=
  .move (.act (.unsubscribe id number) trivial)

@[simp] theorem Event.watch_inj {id other : PackageId} :
    Event.watch id = .watch other ↔ id = other := by
  refine ⟨fun h => ?_, fun h => h ▸ rfl⟩
  cases h
  rfl

@[simp] theorem Event.unwatch_inj {id other : PackageId} {number gone : Nat} :
    Event.unwatch id number = .unwatch other gone ↔ id = other ∧ number = gone := by
  refine ⟨fun h => ?_, fun ⟨h, h'⟩ => h ▸ h' ▸ rfl⟩
  cases h
  exact ⟨rfl, rfl⟩

@[simp] theorem Event.watch_ne_unwatch (id other : PackageId) (number : Nat) :
    Event.watch id ≠ .unwatch other number := nofun

@[simp] theorem Event.unwatch_ne_watch (id other : PackageId) (number : Nat) :
    Event.unwatch id number ≠ .watch other := nofun

/-- The events at which someone comes to watch or goes, and what they do. Nothing else has to do with
who watches. -/
inductive Visit (b : BusyDesk) : Event → Desk → Prop
  | comes (id : PackageId) : Visit b (.watch id) (b.desk.subscribeView id).1
  | goes (id : PackageId) (number : Nat) :
      Visit b (.unwatch id number) (b.desk.unsubscribeView id number).1
  | callerComes (id : PackageId) : Visit b (.subscribeCache id) (b.desk.subscribeCache id).1
  | callerGoes (id : PackageId) (number : Nat) :
      Visit b (.unsubscribeCache id number) (b.desk.unsubscribeCache id number).1
  | none {event : Event} {after : Desk} (same : b.desk.SameWatch after)
      (noneComes : ∀ id, event ≠ .watch id) (noneGoes : ∀ id number, event ≠ .unwatch id number) :
      Visit b event after

theorem visit_happen (b : BusyDesk) (event : Event) : b.Visit event (b.happen event).desk := by
  cases event with
  | move move =>
    cases move with
    | act action leaves =>
      have hact : (∀ h hooks, action ≠ .save h hooks) → .watchers ∉ action.parts →
          b.desk.SameWatch (b.desk.act action) :=
        fun unsaved unwatched => (b.desk.changes_act unsaved).sameWatch unwatched
      cases action with
      | subscribe id => exact .comes id
      | unsubscribe id number => exact .goes id number
      | save h hooks => exact leaves.elim
      | _ =>
        exact .none (hact (by simp) (by simp [Desk.Action.parts])) (fun _ heq => by cases heq)
          fun _ _ heq => by cases heq
    | start h =>
      refine .none ?_ (by simp [Event.watch]) (by simp [Event.unwatch])
      unfold happen BusyDesk.move
      dsimp only
      split
      · exact (b.desk.changes_startSave h).sameWatch (by decide)
      · exact .refl b.desk
    | advance n =>
      refine .none ?_ (by simp [Event.watch]) (by simp [Event.unwatch])
      unfold happen BusyDesk.move
      dsimp only
      split
      · exact .refl b.desk
      · rename_i job _
        have hadvance := (b.desk.changes_advance job).mono job.stage.parts_subset_saving
        exact hadvance.sameWatch (by decide)
  | write h edits leaves => exact .none ⟨rfl, rfl⟩ (by simp [Event.watch]) (by simp [Event.unwatch])
  | subscribeCommits => exact .none ⟨rfl, rfl⟩ (by simp [Event.watch]) (by simp [Event.unwatch])
  | unsubscribeCommits number => exact .none ⟨rfl, rfl⟩ (by simp [Event.watch]) (by simp [Event.unwatch])
  | subscribeCache id => exact .callerComes id
  | unsubscribeCache id number => exact .callerGoes id number
  | aside clock schemas activity bus notices => exact .none ⟨rfl, rfl⟩ (by simp [Event.watch]) (by simp [Event.unwatch])

theorem mem_subscriptionsOf_happen (b : BusyDesk) (event : Event) (id : PackageId) (number : Nat) :
    number ∈ (b.happen event).desk.views.subscriptionsOf id ↔
      (number ∈ b.desk.views.subscriptionsOf id ∧ event ≠ .unwatch id number) ∨
        (event = .watch id ∧ (b.desk.subscribeView id).2 = number) := by
  have hvisit := b.visit_happen event
  generalize (b.happen event).desk = after at hvisit
  cases hvisit with
  | comes other =>
    rw [Desk.subscriptionsOf_subscribeView, Desk.number_subscribeView]
    by_cases hid : other = id
    · subst hid
      simp [eq_comm (a := number)]
    · simp [hid]
  | goes other gone =>
    rw [Desk.subscriptionsOf_unsubscribeView]
    by_cases hid : other = id
    · subst hid
      simp [eq_comm (a := gone)]
    · simp [hid]
  | callerComes other => simp [Event.watch, Event.unwatch, Desk.subscribeCache]
  | callerGoes other gone => simp [Event.watch, Event.unwatch, Desk.unsubscribeCache]
  | none same noneComes noneGoes => simp [same.views, noneComes, noneGoes]

theorem lastNumber_le_happen (b : BusyDesk) (event : Event) :
    b.desk.views.lastNumber ≤ (b.happen event).desk.views.lastNumber := by
  have hvisit := b.visit_happen event
  generalize (b.happen event).desk = after at hvisit
  cases hvisit with
  | comes id => exact Nat.le_of_lt (Nat.le_of_eq (Desk.lastNumber_subscribeView _ id).symm)
  | goes id number => exact Nat.le_of_eq (Desk.lastNumber_unsubscribeView _ id number).symm
  | callerComes id => exact Nat.le_refl _
  | callerGoes id number => exact Nat.le_refl _
  | none same => exact Nat.le_of_eq (by rw [same.views])

theorem lastNumber_le_happenAll (b : BusyDesk) (events : List Event) :
    b.desk.views.lastNumber ≤ (b.happenAll events).desk.views.lastNumber := by
  induction events generalizing b with
  | nil => exact Nat.le_refl _
  | cons first rest ih => exact Nat.le_trans (b.lastNumber_le_happen first) (ih _)

/-! ## Who is there -/

/-- A view of a work package was given this number, and it has not gone since. -/
def Viewing (b : BusyDesk) (events : List Event) (id : PackageId) (number : Nat) : Prop :=
  ∃ before later, events = before ++ .watch id :: later ∧
    ((b.happenAll before).desk.subscribeView id).2 = number ∧ .unwatch id number ∉ later

theorem not_viewing_nil (b : BusyDesk) (id : PackageId) (number : Nat) : ¬b.Viewing [] id number := by
  rintro ⟨before, later, heq, -⟩
  simp at heq

theorem viewing_cons {b : BusyDesk} {event : Event} {rest : List Event} {id : PackageId}
    {number : Nat} : b.Viewing (event :: rest) id number ↔
      (event = .watch id ∧ (b.desk.subscribeView id).2 = number ∧ .unwatch id number ∉ rest) ∨
        (b.happen event).Viewing rest id number := by
  constructor
  · rintro ⟨before, later, heq, hnumber, hstays⟩
    cases before with
    | nil =>
      obtain ⟨rfl, rfl⟩ := List.cons.inj heq
      exact Or.inl ⟨rfl, hnumber, hstays⟩
    | cons first before =>
      obtain ⟨rfl, rfl⟩ := List.cons.inj heq
      exact Or.inr ⟨before, later, rfl, hnumber, hstays⟩
  · rintro (⟨rfl, hnumber, hstays⟩ | ⟨before, later, rfl, hnumber, hstays⟩)
    · exact ⟨[], rest, rfl, hnumber, hstays⟩
    · exact ⟨event :: before, later, rfl, hnumber, hstays⟩

theorem mem_subscriptionsOf_happenAll (b : BusyDesk) (events : List Event) (id : PackageId)
    (number : Nat) : number ∈ (b.happenAll events).desk.views.subscriptionsOf id ↔
      (number ∈ b.desk.views.subscriptionsOf id ∧ .unwatch id number ∉ events) ∨
        b.Viewing events id number := by
  induction events generalizing b with
  | nil => simp [happenAll, not_viewing_nil]
  | cons first rest ih =>
    have hrest := ih (b.happen first)
    have hstays : .unwatch id number ∉ first :: rest ↔
        first ≠ .unwatch id number ∧ .unwatch id number ∉ rest := by
      rw [List.mem_cons, not_or, ne_comm]
    rw [mem_subscriptionsOf_happen, or_and_right, and_assoc, and_assoc, or_assoc, ← viewing_cons,
      ← hstays] at hrest
    exact hrest

/-! ## Order along the way -/

/-- A caller that goes from the cache does not go under a number that the views have. -/
def Event.Spares (d : Desk) : Event → Prop
  | .unsubscribeCache id number => d.views.cacheLinks[id]? ≠ some number
  | _ => True

/-- Callers of the cache leave the subscriptions of the views alone. -/
def SparesLinks (b : BusyDesk) : List Event → Prop
  | [] => True
  | event :: rest => event.Spares b.desk ∧ (b.happen event).SparesLinks rest

/-- The views of each work package have numbers in the order they came, and are linked once. -/
structure HubInStep (d : Desk) : Prop where
  pairwise : ∀ id, (d.views.subscriptionsOf id).Pairwise (· < ·)
  number_le : ∀ id, ∀ number ∈ d.views.subscriptionsOf id, number ≤ d.views.lastNumber
  linkedOnce : ∀ id, d.LinkedOnce id

theorem HubInStep.subscribeView {d : Desk} (h : HubInStep d) (id : PackageId) :
    HubInStep (d.subscribeView id).1 where
  pairwise other := by
    rw [Desk.subscriptionsOf_subscribeView]
    split
    · refine List.pairwise_append.2 ⟨h.pairwise id, List.pairwise_singleton _ _, ?_⟩
      intro number hmem new hnew
      rw [List.mem_singleton.1 hnew]
      exact Nat.lt_succ_of_le (h.number_le id number hmem)
    · exact h.pairwise other
  number_le other number hmem := by
    rw [Desk.lastNumber_subscribeView]
    rw [Desk.subscriptionsOf_subscribeView] at hmem
    split at hmem
    · rcases List.mem_append.1 hmem with hmem | hmem
      · exact Nat.le_succ_of_le (h.number_le id number hmem)
      · exact Nat.le_of_eq (List.mem_singleton.1 hmem)
    · exact Nat.le_succ_of_le (h.number_le other number hmem)
  linkedOnce other := (h.linkedOnce id).subscribeView (h.linkedOnce other)

theorem HubInStep.unsubscribeView {d : Desk} (h : HubInStep d) (id : PackageId) (number : Nat) :
    HubInStep (d.unsubscribeView id number).1 where
  pairwise other := by
    rw [Desk.subscriptionsOf_unsubscribeView]
    split
    · exact (h.pairwise id).filter _
    · exact h.pairwise other
  number_le other still hmem := by
    rw [Desk.lastNumber_unsubscribeView]
    rw [Desk.subscriptionsOf_unsubscribeView] at hmem
    split at hmem
    · exact h.number_le id still (List.mem_filter.1 hmem).1
    · exact h.number_le other still hmem
  linkedOnce other := (h.linkedOnce id).unsubscribeView (h.linkedOnce other) number

theorem HubInStep.happen {b : BusyDesk} (h : HubInStep b.desk) {event : Event}
    (spares : event.Spares b.desk) : HubInStep (b.happen event).desk := by
  have hvisit := b.visit_happen event
  generalize (b.happen event).desk = after at hvisit
  cases hvisit with
  | comes id => exact h.subscribeView id
  | goes id number => exact h.unsubscribeView id number
  | callerComes id => exact ⟨h.pairwise, h.number_le, fun other => (h.linkedOnce other).subscribeCache id⟩
  | callerGoes id number =>
    exact ⟨h.pairwise, h.number_le, fun other => (h.linkedOnce other).unsubscribeCache spares⟩
  | none same =>
    refine ⟨?_, ?_, fun id => same.linkedOnce (h.linkedOnce id)⟩
    · rw [same.views]
      exact h.pairwise
    · rw [same.views]
      exact h.number_le

theorem HubInStep.happenAll {b : BusyDesk} (h : HubInStep b.desk) {events : List Event}
    (spares : b.SparesLinks events) : HubInStep (b.happenAll events).desk := by
  induction events generalizing b with
  | nil => exact h
  | cons first rest ih => exact ih (h.happen spares.1) spares.2

/-- A desk that no view has come to yet. Callers may watch its cache. -/
structure Unwatched (d : Desk) : Prop where
  views : d.views = {}
  ofViews : ∀ id, d.cache.ofViews id = []

theorem Unwatched.subscriptionsOf {d : Desk} (h : Unwatched d) (id : PackageId) :
    d.views.subscriptionsOf id = [] := by
  rw [h.views]
  simp [ViewHub.subscriptionsOf]

theorem Unwatched.inStep {d : Desk} (h : Unwatched d) : HubInStep d where
  pairwise id := by
    rw [h.subscriptionsOf]
    exact .nil
  number_le id := by
    rw [h.subscriptionsOf]
    exact nofun
  linkedOnce id := .unwatched (h.subscriptionsOf id) (by rw [h.views]; simp) (h.ofViews id)

/-! ## Whatever happens -/

/-- Whoever comes and goes, the views of a work package have one subscription to its cache entry while
one of them is there, and none otherwise. No number is given out twice. An end is reported just if a
view of that work package with that number was there. What is put into the cache is pushed once to each
view of that work package that is there, and to no other. -/
theorem views_kept_in_step {d : Desk} (unwatched : Unwatched d) {events : List Event}
    (spares : ({ desk := d } : BusyDesk).SparesLinks events) :
    let start : BusyDesk := { desk := d }
    let now := (course d events).desk
    (∀ id, (∃ number, start.Viewing events id number) → ∃ link,
      now.views.cacheLinks[id]? = some link ∧
        (now.cache.subscriptionsOf id).filter (·.watcher = .views) =
          [{ number := link, watcher := .views }]) ∧
      (∀ id, (∀ number, ¬start.Viewing events id number) →
        now.views.cacheLinks[id]? = none ∧
          (now.cache.subscriptionsOf id).filter (·.watcher = .views) = []) ∧
      (∀ before id later, events = before ++ .watch id :: later → ∀ other,
        ((course d before).desk.subscribeView id).2 < (now.subscribeView other).2) ∧
      (∀ id number, (now.unsubscribeView id number).2 = true ↔ start.Viewing events id number) ∧
      ∀ snapshot, ∃ viewers : List Nat, viewers.Nodup ∧
        (∀ number, number ∈ viewers ↔ start.Viewing events snapshot.id number) ∧
        ∃ more, (now.putPackage snapshot).deliveries = now.deliveries ++ more ∧
          more.filterMap Delivery.viewed? =
            viewers.map fun number => (number, (now.putPackage snapshot).merged? snapshot.id) := by
  intro start now
  have hinStep : HubInStep now := (unwatched.inStep : HubInStep start.desk).happenAll spares
  have hmem : ∀ id number, number ∈ now.views.subscriptionsOf id ↔ start.Viewing events id number := by
    intro id number
    refine (start.mem_subscriptionsOf_happenAll events id number).trans ?_
    simp [start, unwatched.subscriptionsOf id]
  refine ⟨?_, ?_, ?_, fun id number => ?_, fun snapshot => ?_⟩
  · rintro id ⟨number, hviewing⟩
    cases hinStep.linkedOnce id with
    | unwatched nobody =>
      rw [← hmem, nobody] at hviewing
      cases hviewing
    | watched someone linked once => exact ⟨_, linked, once⟩
  · intro id hnobody
    cases hinStep.linkedOnce id with
    | unwatched nobody unlinked none => exact ⟨unlinked, none⟩
    | watched someone linked once =>
      obtain ⟨number, hnumber⟩ := List.exists_mem_of_ne_nil _ someone
      exact absurd ((hmem id number).1 hnumber) (hnobody number)
  · rintro before id later rfl other
    rw [Desk.number_subscribeView, Desk.number_subscribeView]
    -- Numbers only grow, so who comes now is later than all who came before.
    have hgrows := ((start.happenAll before).happen (.watch id)).lastNumber_le_happenAll later
    have hlast := (start.happenAll before).desk.lastNumber_subscribeView id
    refine Nat.succ_lt_succ (Nat.lt_of_succ_le ?_)
    refine Nat.le_trans (Nat.le_of_eq hlast.symm) (Nat.le_trans hgrows (Nat.le_of_eq ?_))
    exact congrArg (·.desk.views.lastNumber) (start.happenAll_append before (.watch id :: later)).symm
  · exact (now.unsubscribeView_eq_true_iff id number).trans (hmem id number)
  · refine ⟨now.views.subscriptionsOf snapshot.id, ?_, hmem snapshot.id,
      Desk.putPackage_pushes (hinStep.linkedOnce snapshot.id)⟩
    exact (hinStep.pairwise snapshot.id).imp Nat.ne_of_lt

/-- A second view comes after a caller of the cache. It stays when the first one has gone, which did not
go under another id, and it hears of what is put although the caller has gone too. -/
theorem views_kept_in_step_second :
    let one : PackageId := .ofNumber 1
    let two : PackageId := .ofNumber 2
    let snapshot : Snapshot := { id := one, typeHref := "task" }
    let events : List Event := [.watch one, .subscribeCache one, .watch one, .unwatch two 1,
      .unwatch one 1, .unsubscribeCache one 2]
    let start : BusyDesk := { desk := {} }
    let now := (course {} events).desk
    Unwatched {} ∧ start.SparesLinks events ∧ start.Viewing events one 2 ∧
      (∃ link, now.views.cacheLinks[one]? = some link ∧
        (now.cache.subscriptionsOf one).filter (·.watcher = .views) =
          [{ number := link, watcher := .views }]) ∧
      (now.unsubscribeView one 1).2 = false ∧
      ∃ (viewers : List Nat) (more : List Delivery), viewers.Nodup ∧ 1 ∉ viewers ∧ 2 ∈ viewers ∧
        (now.putPackage snapshot).deliveries = now.deliveries ++ more ∧
        more.filterMap Delivery.viewed? = viewers.map fun number => (number, some snapshot) := by
  intro one two snapshot events start now
  have unwatched : Unwatched {} :=
    { views := rfl
      ofViews := fun id => by simp [PackageCache.ofViews, PackageCache.subscriptionsOf] }
  have spares : start.SparesLinks events := by
    refine ⟨trivial, trivial, trivial, trivial, trivial, ?_, trivial⟩
    have hlink : (course {} (events.take 5)).desk.views.cacheLinks[one]? ≠ some 2 := by
      decide +kernel
    exact hlink
  obtain ⟨hlinked, -, -, hended, hpushed⟩ := views_kept_in_step unwatched spares
  have hsecond : start.Viewing events one 2 := (hended one 2).1 (by decide +kernel)
  have hfirst : (now.unsubscribeView one 1).2 = false := by decide +kernel
  obtain ⟨viewers, hnodup, hviewers, more, hmore, hviewed⟩ := hpushed snapshot
  refine ⟨unwatched, spares, hsecond, hlinked one ⟨2, hsecond⟩, hfirst, viewers, more, hnodup, ?_,
    (hviewers 2).2 hsecond, hmore, ?_⟩
  · rw [hviewers, ← hended, hfirst]
    exact Bool.false_ne_true
  · have hmerged : (now.putPackage snapshot).merged? snapshot.id = some snapshot := by decide +kernel
    rw [hviewed, hmerged]

end Draftboard.BusyDesk
