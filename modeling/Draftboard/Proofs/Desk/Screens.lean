import Draftboard.Proofs.Desk.Pushes
import Draftboard.Proofs.Desk.Changes
/-!
# No stale screen

Whatever is done on a desk, a view that is still there shows the current value: the last one pushed
to it, or the one it began with.
-/

namespace Draftboard

def Part.followed : List Part :=
  [.asked, .stored, .elsewhere, .clock, .cache, .schemas, .activity, .flags, .drafts, .pushes,
    .deliveries, .events, .notices]

namespace Desk

/-! ## What views follow -/

theorem follows_of_unseen {d d' : Desk} {more : List Delivery} (h : d.Linked)
    (registry : d'.registry = d.registry) (drafts : d'.drafts = d.drafts)
    (lastHandle : d'.lastHandle = d.lastHandle) (views : d'.views = d.views)
    (cache : d'.cache = d.cache) (deliveries : d'.deliveries = d.deliveries ++ more)
    (silent : ∀ (n : Nat) (value : Option Snapshot), .view n value ∉ more) : d.Follows d' := by
  have hlinked : d'.Linked := h.congr registry drafts lastHandle views (by rw [cache])
  refine .of_quiet hlinked views deliveries silent fun id => ?_
  refine merged?_congr (by rw [registry]) (fun k _ => ?_) (by rw [cache])
  unfold changeset
  rw [drafts]
  exact ⟨rfl, rfl⟩

theorem Change.follows {d d' : Desk} {part : Part} (mem : part ∈ Part.followed)
    (change : d.Change part d') (h : d.Linked) : d.Follows d' := by
  cases change with
  | edit | file | unfile | watch => exact absurd mem (by decide)
  | put x => exact follows_putPackage h x
  | drop id => exact follows_dropPackage h id
  | flag k inFlight => exact follows_modifyQuietly h k (fun _ => rfl) fun _ => rfl
  | draft => exact follows_newDraft h _
  | push id => exact follows_pushViews h h rfl rfl id fun _ _ => rfl
  | tell commit =>
    refine follows_of_unseen h rfl rfl rfl rfl rfl rfl fun n value hmem => ?_
    obtain ⟨m, -, heq⟩ := List.mem_map.1 hmem
    cases heq
  | probe => exact follows_of_unseen h rfl rfl rfl rfl rfl rfl (by simp)
  | _ => exact follows_of_unseen h rfl rfl rfl rfl rfl (List.append_nil _).symm (by simp)

theorem Changes.follows {d d' : Desk} {parts : List Part} (changes : d.Changes parts d')
    (within : parts ⊆ Part.followed) (h : d.Linked) : d.Follows d' :=
  changes.lift (R := fun d d' => d.Linked → d.Follows d') (fun _ => follows_refl)
    (fun first later h => (first h).trans (later (first h).linked))
    (fun mem change => change.follows (within mem)) h

/-! ## Starting to edit -/

theorem follows_changeFor {d : Desk} (h : d.Linked) (snapshot : Snapshot) (form : Option Form) :
    d.Follows (d.changeFor snapshot form).1 := by
  unfold changeFor
  dsimp only
  split
  · rename_i k hk
    split
    · rename_i hstale
      refine follows_startEditing h form fun j hj => ?_
      have heq : j = k := Option.some.inj (hj.symm.trans hk)
      rw [heq]
      exact (Bool.and_eq_true_iff.1 hstale).1
    · exact follows_refl h
  · rename_i hnone
    refine follows_startEditing h form fun j hj => ?_
    rw [registered?, hj] at hnone
    cases hnone

theorem follows_changeForId {d : Desk} (h : d.Linked) (id : PackageId) :
    d.Follows (d.changeForId id).1 := by
  have hload := (changes_load d id).follows (by decide) h
  unfold changeForId
  rcases hl : d.load id with ⟨loaded, error | snapshot⟩ <;> rw [hl] at hload
  · exact hload
  · have hschema := (changes_ensureSchema loaded snapshot.typeHref).follows (by decide) hload.linked
    dsimp only at hschema ⊢
    rcases hs : loaded.ensureSchema snapshot.typeHref with ⟨ready, error | schema⟩ <;>
      rw [hs] at hschema
    · exact hload.trans hschema
    · exact (hload.trans hschema).trans (follows_changeFor hschema.linked snapshot none)

/-! ## Saves -/

theorem follows_settle {d : Desk} (h : d.Linked) (k : Handle) (commit : Commit) :
    d.Follows (d.settle k commit) := by
  have htold := ((Change.put (d := d) commit.workPackage).changes.append (Change.tell commit).changes).append
    (Change.flag k false).changes
  have hlower := htold.follows (by decide) h
  exact hlower.trans (follows_reset hlower.linked k)

theorem follows_advance {d : Desk} (h : d.Linked) (job : SaveJob) : d.Follows (d.advance job).1 := by
  have hchanges := changes_advance d job
  obtain ⟨k, hooks, stage⟩ := job
  cases stage with
  | submission pristine payload changes =>
    rcases hu : d.server.update d.clock.now pristine payload with ⟨error | saved, server⟩
    all_goals have hanswered := changes_answered d hu
    · simp only [advance, submit_of_refused hu]
      exact (hanswered.append (Change.flag k false).changes).follows (by decide) h
    · have hfollows := hanswered.follows (by decide) h
      simp only [advance, submit_of_saved hu]
      exact hfollows.trans (follows_settle hfollows.linked k _)
  | schema pristine stage =>
    exact hchanges.follows (by cases stage <;> simp [SaveStage.parts, SchemaStage.parts, Part.followed]) h
  | _ => exact hchanges.follows (by simp [SaveStage.parts, Part.hooks, Part.followed]) h

theorem follows_save {d : Desk} (h : d.Linked) (k : Handle) : d.Follows (d.save k).1 := by
  have hstart := (changes_startSave d k).follows (by decide) h
  exact hstart.trans (lift_finish (R := fun d d' => d.Linked → d.Follows d') (fun _ => follows_refl)
    (fun first later h => (first h).trans (later (first h).linked))
    (fun _ job h => follows_advance h job) _ _ hstart.linked)

/-! ## Coming and going of views -/

theorem Follows.of_views {d d' : Desk} (linked : d'.Linked)
    (lastNumber_le : d.views.lastNumber ≤ d'.views.lastNumber)
    (live : ∀ {id : PackageId} {n : Nat}, n ≤ d.views.lastNumber →
      n ∈ d'.views.subscriptionsOf id → n ∈ d.views.subscriptionsOf id)
    (deliveries : d'.deliveries = d.deliveries) (registry : d'.registry = d.registry)
    (drafts : d'.drafts = d.drafts) (entries : d'.cache.entries = d.cache.entries) :
    d.Follows d' where
  linked := linked
  lastNumber_le := lastNumber_le
  live := live
  shows := by
    refine ⟨[], by rw [deliveries, List.append_nil], ?_⟩
    intro id n shown _ _ hshown
    have hmerged : d'.merged? id = d.merged? id := by
      refine merged?_congr (by rw [registry]) (fun k _ => ?_) ?_
      · unfold changeset
        rw [drafts]
        exact ⟨rfl, rfl⟩
      · unfold PackageCache.get?
        rw [entries]
    rw [hmerged]
    exact hshown

theorem linked_linkViews {d : Desk} (h : d.Linked) (id : PackageId) : (d.linkViews id).Linked := by
  unfold linkViews
  split
  · exact h
  · exact
      { handle_le := h.handle_le
        reported := h.reported
        id_eq := h.id_eq
        linked := fun {other} hne => by
          rw [Std.ExtTreeMap.getElem?_insert]
          split
          · exact ⟨_, rfl⟩
          · exact h.linked hne
        watched := fun {other link} hlink => by
          rw [PackageCache.subscriptionsOf_subscribe]
          rw [Std.ExtTreeMap.getElem?_insert] at hlink
          simp only [Std.LawfulEqOrd.compare_eq_iff_eq] at hlink
          split
          · exact ⟨_, List.mem_append_right _ List.mem_cons_self, rfl⟩
          · rename_i hne
            rw [if_neg hne] at hlink
            exact h.watched hlink
        number_le := h.number_le
        id_unique := h.id_unique }

theorem exists_linkViews (d : Desk) (id : PackageId) :
    ∃ cache cacheLinks, d.linkViews id = { d with cache, views := { d.views with cacheLinks } } ∧
      cache.entries = d.cache.entries ∧ ∃ link, cacheLinks[id]? = some link := by
  unfold linkViews
  split
  · rename_i link hlink
    exact ⟨d.cache, d.views.cacheLinks, rfl, rfl, link, hlink⟩
  · exact ⟨_, _, rfl, rfl, _, Std.ExtTreeMap.getElem?_insert_self⟩

theorem follows_linkViews {d : Desk} (h : d.Linked) (id : PackageId) : d.Follows (d.linkViews id) := by
  have hlinked := linked_linkViews h id
  obtain ⟨cache, cacheLinks, heq, hentries, -⟩ := exists_linkViews d id
  rw [heq] at hlinked ⊢
  exact .of_views hlinked (Nat.le_refl _) (fun _ hmem => hmem) rfl rfl rfl hentries

theorem mem_subscriptionsOf_append {v : ViewHub} {id other : PackageId} {number n : Nat}
    (h : n ∈ ({ v with subscriptions :=
      v.subscriptions.insert id (v.subscriptionsOf id ++ [number]) } : ViewHub).subscriptionsOf other) :
    n ∈ v.subscriptionsOf other ∨ (id = other ∧ n = number) := by
  rw [v.subscriptionsOf_insert] at h
  split at h
  case isTrue heq =>
    rw [← heq]
    rcases List.mem_append.1 h with hmem | hmem
    · exact Or.inl hmem
    · exact Or.inr ⟨rfl, List.mem_singleton.1 hmem⟩
  case isFalse => exact Or.inl h

theorem follows_addView {d : Desk} (h : d.Linked) {id : PackageId} {link : Nat}
    (hlink : d.views.cacheLinks[id]? = some link) :
    let number := d.views.lastNumber + 1
    let subscriptions := d.views.subscriptions.insert id (d.views.subscriptionsOf id ++ [number])
    d.Follows { d with views := { d.views with subscriptions, lastNumber := number } } := by
  intro number subscriptions
  -- The new number is higher than all others, so nobody has it yet.
  have hfresh : ∀ {other : PackageId}, number ∉ d.views.subscriptionsOf other :=
    fun hmem => Nat.not_succ_le_self _ (h.number_le hmem)
  refine .of_views ?_ (Nat.le_succ _) ?_ rfl rfl rfl rfl
  · exact
      { handle_le := h.handle_le
        reported := h.reported
        id_eq := h.id_eq
        linked := fun {other} hne => by
          obtain ⟨n, hn⟩ := List.exists_mem_of_ne_nil _ hne
          rcases mem_subscriptionsOf_append hn with hmem | ⟨rfl, -⟩
          · exact h.linked (List.ne_nil_of_mem hmem)
          · exact ⟨link, hlink⟩
        watched := h.watched
        number_le := fun hmem => by
          rcases mem_subscriptionsOf_append hmem with hmem | ⟨-, rfl⟩
          · exact Nat.le_succ_of_le (h.number_le hmem)
          · exact Nat.le_refl _
        id_unique := fun hmem hmem' => by
          rcases mem_subscriptionsOf_append hmem with hmem | ⟨rfl, rfl⟩
          · rcases mem_subscriptionsOf_append hmem' with hmem' | ⟨rfl, rfl⟩
            · exact h.id_unique hmem hmem'
            · exact absurd hmem hfresh
          · rcases mem_subscriptionsOf_append hmem' with hmem' | ⟨rfl, -⟩
            · exact absurd hmem' hfresh
            · rfl }
  · intro other n hn hmem
    rcases mem_subscriptionsOf_append hmem with hmem | ⟨-, rfl⟩
    · exact hmem
    · exact absurd hn (Nat.not_succ_le_self _)

theorem follows_subscribeView {d : Desk} (h : d.Linked) (id : PackageId) :
    d.Follows (d.subscribeView id).1 := by
  have hlink := follows_linkViews h id
  obtain ⟨cache, cacheLinks, heq, -, link, hl⟩ := exists_linkViews d id
  have hl' : (d.linkViews id).views.cacheLinks[id]? = some link := by
    rw [heq]
    exact hl
  exact hlink.trans (follows_addView hlink.linked hl')

theorem follows_removeViews {d : Desk} (h : d.Linked) {subscriptions : IdMap (List Nat)}
    (fewer : ∀ {id : PackageId} {n : Nat},
      n ∈ ({ d.views with subscriptions } : ViewHub).subscriptionsOf id →
        n ∈ d.views.subscriptionsOf id) :
    d.Follows { d with views := { d.views with subscriptions } } := by
  refine .of_views ?_ (Nat.le_refl _) (fun _ hmem => fewer hmem) rfl rfl rfl rfl
  exact
    { handle_le := h.handle_le
      reported := h.reported
      id_eq := h.id_eq
      linked := fun hne => by
        obtain ⟨n, hn⟩ := List.exists_mem_of_ne_nil _ hne
        exact h.linked (List.ne_nil_of_mem (fewer hn))
      watched := h.watched
      number_le := fun hmem => h.number_le (fewer hmem)
      id_unique := fun hmem hmem' => h.id_unique (fewer hmem) (fewer hmem') }

theorem follows_unlinkViews {d : Desk} (h : d.Linked) {id : PackageId}
    (gone : d.views.subscriptionsOf id = []) : d.Follows (d.unlinkViews id) := by
  unfold unlinkViews
  split
  · exact follows_refl h
  · refine .of_views ?_ (Nat.le_refl _) (fun _ hmem => hmem) rfl rfl rfl rfl
    exact
      { handle_le := h.handle_le
        reported := h.reported
        id_eq := h.id_eq
        linked := fun {other} hne => by
          have hother : id ≠ other := by
            rintro rfl
            exact hne gone
          obtain ⟨link, hlink⟩ := h.linked hne
          exact ⟨link, by simp [Std.ExtTreeMap.getElem?_erase, hother, hlink]⟩
        watched := fun {other link} hlink => by
          rw [Std.ExtTreeMap.getElem?_erase] at hlink
          simp only [Std.LawfulEqOrd.compare_eq_iff_eq] at hlink
          split at hlink
          · cases hlink
          · rename_i hother
            rw [PackageCache.subscriptionsOf_unsubscribe, if_neg hother]
            exact h.watched hlink
        number_le := h.number_le
        id_unique := h.id_unique }

theorem follows_unsubscribeView {d : Desk} (h : d.Linked) (id : PackageId) (number : Nat) :
    d.Follows (d.unsubscribeView id number).1 := by
  unfold unsubscribeView
  dsimp only
  split
  · exact follows_refl h
  · split
    · have hfewer : ∀ {other : PackageId} {n : Nat},
          n ∈ ({ d.views with subscriptions := d.views.subscriptions.erase id } :
            ViewHub).subscriptionsOf other → n ∈ d.views.subscriptionsOf other := by
        intro other n hmem
        rw [d.views.subscriptionsOf_erase] at hmem
        split at hmem
        · cases hmem
        · exact hmem
      have hremove := follows_removeViews h hfewer
      exact hremove.trans (follows_unlinkViews hremove.linked (by simp [ViewHub.subscriptionsOf]))
    · refine follows_removeViews h ?_
      intro other n hmem
      rw [d.views.subscriptionsOf_insert] at hmem
      split at hmem
      case isTrue heq =>
        rw [← heq]
        exact (List.mem_filter.1 hmem).1
      case isFalse => exact hmem

/-! ## Everything that is done on a desk -/

/-- A batch of edits. It may write, clear and attach, but not exchange the snapshot it edits. -/
structure Edits where
  apply : Changeset → Changeset
  pristine_apply : ∀ c, (apply c).pristine = c.pristine

/-- One thing that is done on a desk, or that happens to its server. -/
inductive Action where
  | put (snapshot : Snapshot)
  | putAll (snapshots : List Snapshot)
  | invalidate (id : PackageId)
  | load (id : PackageId)
  | changeFor (snapshot : Snapshot) (form : Option Form)
  | changeForId (id : PackageId)
  /-- A change-set that is registered nowhere and reports to nobody. -/
  | detached (changeset : Changeset)
  | setValue (h : Handle) (name : String) (value : AttrValue)
  | modify (h : Handle) (edits : Edits)
  | reset (h : Handle)
  | stopEditing (id : PackageId)
  /-- A save, and what hooks do this time. -/
  | save (h : Handle) (hooks : List Hook)
  | subscribe (id : PackageId)
  | unsubscribe (id : PackageId) (number : Nat)
  /-- Others use the server, or failures are queued. -/
  | elsewhere (server : Server)

def act (d : Desk) : Action → Desk
  | .put snapshot => d.putPackage snapshot
  | .putAll snapshots => d.putPackages snapshots
  | .invalidate id => d.dropPackage id
  | .load id => (d.load id).1
  | .changeFor snapshot form => (d.changeFor snapshot form).1
  | .changeForId id => (d.changeForId id).1
  | .detached changeset => (d.newDraft { changeset, reported := false }).1
  | .setValue h name value => d.setValue h name value
  | .modify h edits => (d.edit h fun c => (edits.apply c, ())).1
  | .reset h => d.reset h
  | .stopEditing id => d.stopEditing id
  | .save h hooks => (({ d with hooks } : Desk).save h).1
  | .subscribe id => (d.subscribeView id).1
  | .unsubscribe id number => (d.unsubscribeView id number).1
  | .elsewhere server => { d with server }

def actAll (d : Desk) (actions : List Action) : Desk := actions.foldl act d

def Action.parts : Action → List Part
  | .put _ | .putAll _ | .invalidate _ => [.cache]
  | .load _ => [.asked, .cache]
  | .changeFor .. => [.drafts, .filed]
  | .changeForId _ => [.asked, .cache, .schemas, .drafts, .filed]
  | .detached _ => [.drafts, .flags]
  | .setValue .. => [.edits, .pushes]
  | .modify .. => [.flags, .edits, .pushes]
  | .reset _ => [.edits, .unfiled, .pushes]
  | .stopEditing _ => [.unfiled, .edits, .pushes]
  | .save .. => Part.saving
  | .subscribe _ | .unsubscribe .. => [.watchers]
  | .elsewhere _ => [.elsewhere]

theorem changes_act (d : Desk) {action : Action} (unsaved : ∀ h hooks, action ≠ .save h hooks) :
    d.Changes action.parts (d.act action) := by
  cases action with
  | put x => exact (Change.put x).changes
  | putAll list => exact changes_putPackages d list
  | invalidate id => exact (Change.drop id).changes
  | load id => exact changes_load d id
  | changeFor x form => exact changes_changeFor d x form
  | changeForId id => exact changes_changeForId d id
  | detached c => exact changes_newDraft d _
  | setValue h name value => exact changes_setValue d h name value
  | modify h edits => exact Changes.edit (f := fun c => (edits.apply c, ())) (changes_rewrite d (edits.pristine_apply _))
  | reset h => exact changes_reset d h
  | stopEditing id => exact changes_stopEditing d id
  | save h hooks => exact absurd rfl (unsaved h hooks)
  | subscribe id => exact changes_subscribeView d id
  | unsubscribe id number => exact changes_unsubscribeView d id number
  | elsewhere server => exact (Change.replace server).changes

theorem follows_act {d : Desk} (h : d.Linked) (action : Action) : d.Follows (d.act action) := by
  cases action with
  | put snapshot => exact follows_putPackage h snapshot
  | putAll snapshots => exact (changes_putPackages d snapshots).follows (by decide) h
  | invalidate id => exact follows_dropPackage h id
  | load id => exact (changes_load d id).follows (by decide) h
  | changeFor snapshot form => exact follows_changeFor h snapshot form
  | changeForId id => exact follows_changeForId h id
  | detached changeset => exact follows_newDraft h _
  | setValue k name value => exact follows_edit h k _ (Changeset.pristine_setValue _ name value)
  | modify k edits => exact follows_edit h k _ (edits.pristine_apply _)
  | reset k => exact follows_reset h k
  | stopEditing id => exact follows_stopEditing h id
  | save k hooks =>
    have hhooks : d.Follows { d with hooks } :=
      follows_of_unseen h rfl rfl rfl rfl rfl (List.append_nil _).symm (by simp)
    exact hhooks.trans (follows_save hhooks.linked k)
  | subscribe id => exact follows_subscribeView h id
  | unsubscribe id number => exact follows_unsubscribeView h id number
  | elsewhere server => exact (Change.replace server).changes.follows (by decide) h

theorem follows_actAll {d : Desk} (h : d.Linked) (actions : List Action) :
    d.Follows (d.actAll actions) := by
  induction actions generalizing d with
  | nil => exact follows_refl h
  | cons first rest ih => exact (follows_act h first).trans (ih (follows_act h first).linked)

/-- A view that is still there shows what its work package looks like: the last value that was
pushed to it, or the one it began with. It may only miss a change of titles of links. -/
theorem view_shows_merged {d : Desk} (idle : d.Idle) (before after : List Action) (id : PackageId) :
    let opened := ((d.actAll before).subscribeView id).1
    let number := ((d.actAll before).subscribeView id).2
    let last := opened.actAll after
    ∃ pushed, last.deliveries = opened.deliveries ++ pushed ∧
      (number ∈ last.views.subscriptionsOf id →
        SameView (lastPushed number (opened.merged? id) pushed) (last.merged? id)) := by
  intro opened number last
  have hopened : opened.Linked :=
    (follows_subscribeView (follows_actAll idle.linked before).linked id).linked
  obtain ⟨pushed, hpushed, hshows⟩ := (follows_actAll hopened after).shows
  exact ⟨pushed, hpushed, fun live => hshows (Nat.le_refl number) live rfl⟩

theorem view_shows_edited_subject :
    let snapshot : Snapshot := { id := { text := "7" }, typeHref := "task" }
    let after : List Action := [.changeFor snapshot none, .setValue 1 "subject" (.text "Mine"),
      .put { snapshot with lockVersion := 1 }]
    let opened := ((({} : Desk).actAll [.put snapshot]).subscribeView snapshot.id).1
    Idle {} ∧ ∃ pushed, (opened.actAll after).deliveries = opened.deliveries ++ pushed ∧
      SameView (lastPushed 1 (opened.merged? snapshot.id) pushed)
        ((opened.actAll after).merged? snapshot.id) ∧
      ((opened.actAll after).merged? snapshot.id).any (·.subject? = some "Mine") = true := by
  intro snapshot after opened
  have idle : Idle {} := { registry := rfl, views := rfl }
  obtain ⟨pushed, hpushed, hshows⟩ := view_shows_merged idle [.put snapshot] after snapshot.id
  exact ⟨idle, pushed, hpushed, hshows (by decide +kernel), by decide +kernel⟩

end Desk

end Draftboard
