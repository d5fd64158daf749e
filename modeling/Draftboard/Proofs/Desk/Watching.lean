import Draftboard.Proofs.Desk.Saves
/-!
# Keeping views up to date

A view has heard the last value that was pushed to it. `Follows` says that from one desk to a later
one, each view that showed the current value still does.
-/

namespace Draftboard

/-! ## Values on display -/

/-- Two values of a view that differ at most in titles of links. -/
def SameView (a b : Option Snapshot) : Prop := a.map Snapshot.untitled = b.map Snapshot.untitled

def lastPushed (n : Nat) (shown : Option Snapshot) (deliveries : List Delivery) : Option Snapshot :=
  deliveries.foldl (fun last x =>
    match x with
    | .view m value => if m = n then value else last
    | _ => last) shown

theorem lastPushed_append (n : Nat) (shown : Option Snapshot) (first rest : List Delivery) :
    lastPushed n shown (first ++ rest) = lastPushed n (lastPushed n shown first) rest :=
  List.foldl_append

theorem lastPushed_of_forall {n : Nat} {value : Option Snapshot} {deliveries : List Delivery}
    (h : ∀ pushed, .view n pushed ∈ deliveries → pushed = value) (shown : Option Snapshot) :
    lastPushed n shown deliveries = value ∨
      lastPushed n shown deliveries = shown ∧ ∀ pushed, .view n pushed ∉ deliveries := by
  induction deliveries generalizing shown with
  | nil => exact Or.inr ⟨rfl, by simp⟩
  | cons first rest ih =>
    have hrest : ∀ pushed, .view n pushed ∈ rest → pushed = value :=
      fun pushed hmem => h pushed (List.mem_cons_of_mem _ hmem)
    by_cases hfirst : ∃ pushed, first = .view n pushed
    · obtain ⟨pushed, rfl⟩ := hfirst
      have heq : pushed = value := h pushed List.mem_cons_self
      have hstep : lastPushed n shown (.view n pushed :: rest) = lastPushed n pushed rest := by
        simp [lastPushed]
      rw [hstep, heq]
      rcases ih hrest value with hv | ⟨hv, -⟩ <;> exact Or.inl hv
    · have hstep : lastPushed n shown (first :: rest) = lastPushed n shown rest := by
        cases first with
        | view m pushed =>
          have hne : m ≠ n := fun heq => hfirst ⟨pushed, by rw [heq]⟩
          simp [lastPushed, hne]
        | _ => rfl
      rw [hstep]
      rcases ih hrest shown with hv | ⟨hv, hnone⟩
      · exact Or.inl hv
      · refine Or.inr ⟨hv, fun pushed hmem => ?_⟩
        rcases List.mem_cons.1 hmem with heq | hmem
        · exact hfirst ⟨pushed, heq.symm⟩
        · exact hnone pushed hmem

theorem lastPushed_of_silent {n : Nat} {deliveries : List Delivery}
    (h : ∀ value, .view n value ∉ deliveries) (shown : Option Snapshot) :
    lastPushed n shown deliveries = shown := by
  have hforall : ∀ pushed, .view n pushed ∈ deliveries → pushed = shown :=
    fun pushed hmem => absurd hmem (h pushed)
  rcases lastPushed_of_forall hforall shown with hv | ⟨hv, -⟩ <;> exact hv

namespace Desk

/-! ## Links between views, cache and change-sets -/

/-- A registered change-set is one of its work package and reports its edits. Where there are views
the cache tells them, and no two views have one number. -/
structure Linked (d : Desk) : Prop where
  handle_le : ∀ {id : PackageId} {h : Handle}, d.registry[id]? = some h → h ≤ d.lastHandle
  reported : ∀ {id : PackageId} {h : Handle}, d.registry[id]? = some h → d.isReported h = true
  id_eq : ∀ {id : PackageId} {h : Handle}, d.registry[id]? = some h → (d.changeset h).id = id
  linked : ∀ {id : PackageId}, d.views.subscriptionsOf id ≠ [] → ∃ link, d.views.cacheLinks[id]? = some link
  watched : ∀ {id : PackageId} {link : Nat}, d.views.cacheLinks[id]? = some link →
    ∃ s ∈ d.cache.subscriptionsOf id, s.watcher = .views
  number_le : ∀ {id : PackageId} {n : Nat}, n ∈ d.views.subscriptionsOf id → n ≤ d.views.lastNumber
  id_unique : ∀ {id other : PackageId} {n : Nat}, n ∈ d.views.subscriptionsOf id →
    n ∈ d.views.subscriptionsOf other → id = other

/-- A desk on which nothing is edited and nobody watches. -/
structure Idle (d : Desk) : Prop where
  registry : d.registry = ∅
  views : d.views = {}

theorem Idle.linked {d : Desk} (h : d.Idle) : d.Linked := by
  have hregistry : ∀ {id : PackageId} {h : Handle}, d.registry[id]? = some h → False := by
    intro id handle heq
    rw [h.registry] at heq
    simp at heq
  have hlinks : ∀ {id : PackageId} {link : Nat}, d.views.cacheLinks[id]? = some link → False := by
    intro id link heq
    rw [h.views] at heq
    simp at heq
  have hviews : ∀ id, d.views.subscriptionsOf id = [] := by
    intro id
    rw [h.views]
    simp [ViewHub.subscriptionsOf]
  constructor
  · intro id handle heq; exact (hregistry heq).elim
  · intro id handle heq; exact (hregistry heq).elim
  · intro id handle heq; exact (hregistry heq).elim
  · intro id hne; exact absurd (hviews id) hne
  · intro id link heq; exact (hlinks heq).elim
  · intro id n hmem; rw [hviews] at hmem; cases hmem
  · intro id other n hmem; rw [hviews] at hmem; cases hmem

theorem Linked.congr {d d' : Desk} (h : d.Linked) (registry : d'.registry = d.registry)
    (drafts : d'.drafts = d.drafts) (lastHandle : d'.lastHandle = d.lastHandle)
    (views : d'.views = d.views) (subscriptions : d'.cache.subscriptions = d.cache.subscriptions) :
    d'.Linked where
  handle_le := by rw [registry, lastHandle]; exact h.handle_le
  reported := by unfold isReported; rw [registry, drafts]; exact h.reported
  id_eq := by unfold changeset; rw [registry, drafts]; exact h.id_eq
  linked := by rw [views]; exact h.linked
  watched := by unfold PackageCache.subscriptionsOf; rw [views, subscriptions]; exact h.watched
  number_le := by rw [views]; exact h.number_le
  id_unique := by rw [views]; exact h.id_unique

/-! ## Following -/

/-- Views that showed the current value on one desk and are still there show it on a later one. -/
structure Follows (d d' : Desk) : Prop where
  linked : d'.Linked
  lastNumber_le : d.views.lastNumber ≤ d'.views.lastNumber
  live : ∀ {id : PackageId} {n : Nat}, n ≤ d.views.lastNumber →
    n ∈ d'.views.subscriptionsOf id → n ∈ d.views.subscriptionsOf id
  shows : ∃ more, d'.deliveries = d.deliveries ++ more ∧
    ∀ {id : PackageId} {n : Nat} {shown : Option Snapshot}, n ≤ d.views.lastNumber →
      n ∈ d'.views.subscriptionsOf id → SameView shown (d.merged? id) →
      SameView (lastPushed n shown more) (d'.merged? id)

theorem Follows.trans {first middle last : Desk} (h : first.Follows middle)
    (h' : middle.Follows last) : first.Follows last where
  linked := h'.linked
  lastNumber_le := Nat.le_trans h.lastNumber_le h'.lastNumber_le
  live old hmem := h.live old (h'.live (Nat.le_trans old h.lastNumber_le) hmem)
  shows := by
    obtain ⟨more, hmore, hfirst⟩ := h.shows
    obtain ⟨later, hlater, hlast⟩ := h'.shows
    refine ⟨more ++ later, ?_, ?_⟩
    · rw [hlater, hmore, List.append_assoc]
    · intro id n shown old hmem hshown
      have hbetween := Nat.le_trans old h.lastNumber_le
      rw [lastPushed_append]
      exact hlast hbetween hmem (hfirst old (h'.live hbetween hmem) hshown)

section Moves

variable {d d' : Desk} {more : List Delivery}

theorem Follows.of_pushes (h : d.Linked) (linked : d'.Linked) (views : d'.views = d.views)
    (deliveries : d'.deliveries = d.deliveries ++ more) (id : PackageId)
    (pushed : ∀ {n : Nat} {value : Option Snapshot}, .view n value ∈ more →
      n ∈ d.views.subscriptionsOf id ∧ value = d'.merged? id)
    (told : SameView (d.merged? id) (d'.merged? id) ∨
      ∀ n ∈ d.views.subscriptionsOf id, ∃ value, .view n value ∈ more)
    (others : ∀ other, id ≠ other → d'.merged? other = d.merged? other) : d.Follows d' where
  linked := linked
  lastNumber_le := Nat.le_of_eq (by rw [views])
  live _ hmem := by rw [← views]; exact hmem
  shows := by
    refine ⟨more, deliveries, ?_⟩
    intro other n shown _ hmem hshown
    rw [views] at hmem
    by_cases heq : id = other
    · subst heq
      rcases lastPushed_of_forall (fun _ hp => (pushed hp).2) shown with hv | ⟨hv, hnone⟩
      · rw [hv]
        rfl
      · rw [hv]
        rcases told with hsame | hall
        · exact Eq.trans hshown hsame
        · obtain ⟨value, hvalue⟩ := hall n hmem
          exact absurd hvalue (hnone value)
    · have hnone : ∀ value, .view n value ∉ more := fun value hp =>
        heq (h.id_unique (pushed hp).1 hmem)
      rw [lastPushed_of_silent hnone, others other heq]
      exact hshown

theorem Follows.of_quiet (linked : d'.Linked) (views : d'.views = d.views)
    (deliveries : d'.deliveries = d.deliveries ++ more)
    (silent : ∀ (n : Nat) (value : Option Snapshot), .view n value ∉ more)
    (merged : ∀ id, d'.merged? id = d.merged? id) : d.Follows d' where
  linked := linked
  lastNumber_le := Nat.le_of_eq (by rw [views])
  live _ hmem := by rw [← views]; exact hmem
  shows := by
    refine ⟨more, deliveries, ?_⟩
    intro id n shown _ _ hshown
    rw [lastPushed_of_silent (silent n), merged]
    exact hshown

end Moves

end Desk

end Draftboard
