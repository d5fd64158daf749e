import Draftboard.Proofs.Desk.Filing
import Draftboard.Proofs.Desk.Midway
/-!
# What a commit makes known

Commit subscribers are told of a commit when its snapshot is in the cache and before the change-set
is given up. After that the hooks run, in the order they are registered.
-/

namespace Draftboard

/-! ## Reports -/

def Delivery.isReport : Delivery → Bool
  | .commit .. | .probe .. => true
  | .cache .. | .view .. => false

def Delivery.probed? : Delivery → Option (String × PackageId)
  | .probe name id _ => some (name, id)
  | .commit .. | .cache .. | .view .. => none

def Hook.probe? : Hook → Option String
  | .probe name _ => some name
  | .invalidateActivity | .refreshParent | .publishEvents | .custom .. => none

namespace Desk

def reports (d : Desk) : List Delivery := d.deliveries.filter Delivery.isReport

theorem reports_of_deliveries {d d' : Desk} {more : List Delivery}
    (deliveries : d'.deliveries = d.deliveries ++ more) (others : ∀ x ∈ more, x.isReport = false) :
    d'.reports = d.reports := by
  have hnone : more.filter Delivery.isReport = [] := by
    rw [List.filter_eq_nil_iff]
    intro x hx
    simp [others x hx]
  rw [reports, reports, deliveries, List.filter_append, hnone, List.append_nil]

theorem isReport_of_told (d : Desk) (messages : List CacheDelivery) :
    ∀ x ∈ messages.flatMap d.told, x.isReport = false := by
  intro x hx
  obtain ⟨message, -, hmessage⟩ := List.mem_flatMap.1 hx
  unfold told at hmessage
  split at hmessage
  · rw [List.mem_singleton.1 hmessage]
    rfl
  · obtain ⟨n, -, rfl⟩ := List.mem_map.1 hmessage
    rfl

theorem Change.reports {d d' : Desk} {part : Part} (change : d.Change part d')
    (untold : part ≠ .deliveries) : d'.reports = d.reports := by
  cases change with
  | put x =>
    unfold putPackage
    dsimp only
    rw [foldl_deliverCache]
    exact reports_of_deliveries rfl (isReport_of_told _ _)
  | drop id =>
    unfold dropPackage
    dsimp only
    rw [foldl_deliverCache]
    exact reports_of_deliveries rfl (isReport_of_told _ _)
  | push id =>
    refine reports_of_deliveries rfl fun x hx => ?_
    obtain ⟨n, -, rfl⟩ := List.mem_map.1 hx
    rfl
  | tell | probe => exact absurd rfl untold
  | _ => rfl

theorem Changes.reports {d d' : Desk} {parts : List Part} (changes : d.Changes parts d')
    (untold : .deliveries ∉ parts) : d'.reports = d.reports :=
  changes.lift (R := fun d d' => d'.reports = d.reports) (fun _ => rfl)
    (fun first later => later.trans first)
    fun mem change => change.reports (ne_of_mem_of_not_mem mem untold)

/-! ## Publishing -/

/-- What a commit subscriber sees of the change-set registered for a work package. -/
def standing? (d : Desk) (id : PackageId) : Option DraftStanding :=
  (d.registered? id).map fun h =>
    { inFlight := (d.changeset h).inFlight, isEmpty := (d.changeset h).isEmpty }

theorem reports_publishCommit (d : Desk) (commit : Commit) :
    (d.publishCommit commit).reports = d.reports ++ d.commitSubscriptions.map fun n =>
      .commit n commit (d.standing? commit.id) (d.cachedVersion commit.id) := by
  have hall : ∀ list : List Nat,
      (list.map fun n => Delivery.commit n commit (d.standing? commit.id)
        (d.cachedVersion commit.id)).filter Delivery.isReport =
      list.map fun n => .commit n commit (d.standing? commit.id) (d.cachedVersion commit.id) := by
    intro list
    rw [List.filter_eq_self]
    intro x hx
    obtain ⟨n, -, rfl⟩ := List.mem_map.1 hx
    rfl
  exact (List.filter_append _ _).trans (congrArg (d.reports ++ ·) (hall _))

/-! ## Hooks -/

theorem exists_reports_runHook (d : Desk) (commit : Commit) (hook : Hook) :
    ∃ ran, (d.runHook commit hook).1.reports = d.reports ++ ran ∧
      ran.map Delivery.probed? = hook.probe?.toList.map fun name => some (name, commit.id) := by
  have hquiet : ∀ {d' : Desk} {parts : List Part}, d.Changes parts d' → .deliveries ∉ parts →
      ∃ ran, d'.reports = d.reports ++ ran ∧ ran.map Delivery.probed? = [] := fun changes untold =>
    ⟨[], (changes.reports untold).trans (List.append_nil _).symm, rfl⟩
  cases hook with
  | invalidateActivity => exact hquiet (Change.forget commit.id).changes (by decide)
  | refreshParent =>
    cases hp : commit.workPackage.parentId? with
    | none =>
      simp only [runHook, hp]
      exact hquiet (.refl [] d) (by decide)
    | some parent =>
      simp only [runHook, hp]
      exact hquiet ((Change.drop parent).changes.append (changes_refetch _ parent)) (by decide)
  | publishEvents => exact hquiet (changes_publishEvents d commit) (by decide)
  | probe name fails =>
    refine ⟨[.probe name commit.id (d.cachedVersion commit.id)], ?_, rfl⟩
    exact List.filter_append _ _
  | custom writes fails => exact hquiet (.foldl changes_writeCache (writes commit d.cache.entries) d) (by decide)

theorem exists_reports_runHooks (d : Desk) (commit : Commit) (hooks : List Hook) :
    ∃ ran, (d.runHooks commit hooks).reports = d.reports ++ ran ∧
      ran.map Delivery.probed? = (hooks.filterMap Hook.probe?).map fun name => some (name, commit.id) := by
  induction hooks generalizing d with
  | nil => exact ⟨[], (List.append_nil _).symm, rfl⟩
  | cons hook rest ih =>
    obtain ⟨first, hfirst, hnames⟩ := exists_reports_runHook d commit hook
    obtain ⟨later, hlater, hrest⟩ := ih (d.runHook commit hook).1
    refine ⟨first ++ later, ?_, ?_⟩
    · rw [← List.append_assoc, ← hfirst]
      exact hlater
    · rw [List.map_append, hnames, hrest, List.filterMap_cons]
      cases hook.probe? <;> rfl

/-! ## Giving up -/

theorem registry_reset (d : Desk) (h : Handle) :
    (d.reset h).registry =
      if d.registered? (d.changeset h).id = some h then d.registry.erase (d.changeset h).id
      else d.registry := by
  have hsame : (d.modifyQuietly h Changeset.clear).registered? = d.registered? := rfl
  unfold reset
  dsimp only
  rw [hsame]
  split
  · split <;> rfl
  · rfl

theorem Filed.registered?_reset {d : Desk} (filed : d.Filed) (h : Handle) (id : PackageId) :
    (d.reset h).registered? id = if d.registered? id = some h then none else d.registered? id := by
  rw [registered?, registry_reset]
  by_cases hr : d.registered? id = some h
  · have hid := filed.id_eq hr
    rw [if_pos hr, hid, if_pos hr]
    exact Std.ExtTreeMap.getElem?_erase_self
  · rw [if_neg hr]
    split
    · rename_i hmine
      have hne : (d.changeset h).id ≠ id := by
        rintro rfl
        exact hr hmine
      simp [Std.ExtTreeMap.getElem?_erase, hne, registered?]
    · rfl

theorem changeset_reset_of_ne (d : Desk) {h k : Handle} (hne : h ≠ k) :
    (d.reset h).changeset k = d.changeset k := by
  obtain ⟨registry, more, heq⟩ := exists_reset d h
  rw [heq]
  exact changeset_modifyQuietly_of_ne d _ hne

/-! ## Settling -/

section Settle

variable (d : Desk) (h : Handle) (commit : Commit)

theorem changeset_settle_of_ne {k : Handle} (hne : h ≠ k) :
    (d.settle h commit).changeset k = d.changeset k := by
  rw [settle, changeset_reset_of_ne _ hne, changeset_lowered, if_neg hne,
    (bystands_published d commit).changeset]

theorem Filed.registered?_settle {d : Desk} (filed : d.Filed) (id : PackageId) :
    (d.settle h commit).registered? id = if d.registered? id = some h then none else d.registered? id := by
  have hpublish := bystands_published d commit
  have hlower := (Change.flag (d := (d.putPackage commit.workPackage).publishCommit commit) h false).changes
  have hfiled := (hlower.keepsOrder_of_undrafted (by decide) (by decide)).filed
    (hpublish.keepsOrder.filed filed)
  have hsame : (((d.putPackage commit.workPackage).publishCommit commit).setInFlight h
      false).registered? id = d.registered? id := congrArg (·[id]?) hpublish.registry
  rw [settle, hfiled.registered?_reset, hsame]

theorem reports_settle (filed : commit.workPackage.id = commit.id) :
    (d.settle h commit).reports = d.reports ++ d.commitSubscriptions.map fun n =>
      .commit n commit (d.standing? commit.id) (some commit.workPackage.lockVersion) := by
  have hput := (Change.put (d := d) commit.workPackage).bystands (by decide)
  have hcached : (d.putPackage commit.workPackage).cachedVersion commit.id =
      some commit.workPackage.lockVersion := by
    rw [cachedVersion, cache_putPackage, PackageCache.get?_put, if_pos filed]
    rfl
  have hstanding : (d.putPackage commit.workPackage).standing? commit.id = d.standing? commit.id := by
    simp only [standing?, registered?, hput.registry, hput.changeset]
  have hpublish := reports_publishCommit (d.putPackage commit.workPackage) commit
  rw [(Change.put commit.workPackage).reports (by decide), hput.commitSubscriptions, hstanding, hcached]
    at hpublish
  have hgivenUp := (Change.flag (d := (d.putPackage commit.workPackage).publishCommit commit) h
    false).changes.append (changes_reset _ h)
  exact (hgivenUp.reports (by decide)).trans hpublish

end Settle

/-! ## Saves that are taken -/

/-- How a save comes to its end that the server has taken. `held` is the desk while subscribers are
told of the commit, and `settled` the desk when the hooks begin. -/
structure Publishes (d : Desk) (h : Handle) (hooks : List Hook) (commit : Commit)
    (held settled after : Desk) : Prop where
  untouched : d.Bystands held
  cached : held.cache.get? commit.id = some commit.workPackage
  settles : settled = ((held.publishCommit commit).setInFlight h false).reset h
  /-- Each commit subscriber is told once, in order. -/
  told : settled.reports = d.reports ++ d.commitSubscriptions.map fun n =>
    .commit n commit (d.standing? commit.id) (some commit.workPackage.lockVersion)
  changes : (settled.changeset h).changes = ∅
  form : (settled.changeset h).form = none
  lowered : (settled.changeset h).inFlight = false
  unregistered : ∀ id, settled.registered? id ≠ some h
  cache : settled.cache = held.cache
  runs : after = settled.runHooks commit hooks
  /-- Hooks have no change-set at hand. -/
  bystands : settled.Bystands after
  ran : ∃ ran, after.reports = settled.reports ++ ran ∧
    ran.map Delivery.probed? = (hooks.filterMap Hook.probe?).map fun name => some (name, commit.id)
  others : ∀ k, k ≠ h → after.changeset k = d.changeset k ∧
    ∀ id, after.registered? id = some k ↔ d.registered? id = some k

theorem publishes_of_settle {d asked : Desk} (untouched : d.Bystands asked)
    (quiet : asked.reports = d.reports) (filed : d.Filed) {h : Handle}
    (known : d.drafts[h]?.isSome = true) {commit : Commit} (mine : commit.workPackage.id = commit.id)
    (hooks : List Hook) :
    d.Publishes h hooks commit (asked.putPackage commit.workPackage) (asked.settle h commit)
      ((asked.settle h commit).runHooks commit hooks) := by
  have hput := untouched.trans ((Change.put commit.workPackage).bystands (by decide))
  have hhooks := (changes_runHooks (asked.settle h commit) commit hooks).bystands (by decide)
  have hregistered := (untouched.keepsOrder.filed filed).registered?_settle h commit
  have hstanding : asked.standing? commit.id = d.standing? commit.id := by
    simp only [standing?, registered?, untouched.registry, untouched.changeset]
  have htold := reports_settle asked h commit mine
  rw [quiet, untouched.commitSubscriptions, hstanding] at htold
  rw [← untouched.drafts] at known
  have hcleared := changeset_settle_self known commit
  refine
    { untouched := hput
      cached := ?_
      settles := rfl
      told := htold
      changes := by rw [hcleared]; rfl
      form := by rw [hcleared]; rfl
      lowered := by rw [hcleared]
      unregistered := fun id hr => ?_
      cache := (cache_settle asked h commit).trans (cache_putPackage asked commit.workPackage).symm
      runs := rfl
      bystands := hhooks
      ran := exists_reports_runHooks _ commit hooks
      others := fun k hk => ⟨?_, fun id => ?_⟩ }
  · rw [cache_putPackage, PackageCache.get?_put, if_pos mine]
  -- The registration that has gone is that of the change-set itself, and there is no other of it.
  · rw [hregistered] at hr
    split at hr
    · cases hr
    · contradiction
  · rw [hhooks.changeset, changeset_settle_of_ne asked h commit (Ne.symm hk), untouched.changeset]
  · have hsame : asked.registered? id = d.registered? id := congrArg (·[id]?) untouched.registry
    have hafter : ((asked.settle h commit).runHooks commit hooks).registered? id =
        (asked.settle h commit).registered? id := congrArg (·[id]?) hhooks.registry
    rw [hafter, hregistered, hsame]
    split
    · rename_i hmine
      simp [hmine, Ne.symm hk]
    · rfl

theorem exists_submission {d after : Desk} {job : SaveJob} (pending : job.isPending = true)
    {commit : Commit} (saved : d.finish job = (after, .ok commit)) :
    ∃ sending pristine payload changes, d.Changes [.asked, .schemas] sending ∧
      sending.finish { job with stage := .submission pristine payload changes } = (after, .ok commit) := by
  induction hn : job.stepsLeft using Nat.strongRecOn generalizing d job with
  | ind n ih =>
    obtain ⟨h, hooks, stage⟩ := job
    cases stage with
    | followUp | refetch | finished => cases pending
    | submission pristine payload changes => exact ⟨d, pristine, payload, changes, .refl _ d, saved⟩
    | schema pristine stage =>
      have hends := d.seekEnds_advance h hooks pristine stage
      have hlt := d.stepsLeft_advance_lt { handle := h, hooks, stage := .schema pristine stage } rfl
      rw [← finish_advance] at saved
      generalize d.advance _ = stepped at hends hlt saved
      have hstep : d.Changes [.asked, .schemas] (d.stepSchema pristine.typeHref stage).1 :=
        (changes_stepSchema d pristine.typeHref stage).mono stage.parts_subset
      cases hends with
      | fails error =>
        rw [finish_finished] at saved
        cases saved
      | goesOn next =>
        obtain ⟨sending, base, payload, changes, hchanges, hsent⟩ := ih _ (hn ▸ hlt) rfl saved rfl
        exact ⟨sending, base, payload, changes, hstep.trans hchanges, hsent⟩
      | @composes schema payload _ composed =>
        exact ⟨d, pristine, payload, (d.changeset h).changes, .refl _ d, saved⟩

theorem exists_answered_submission {d after : Desk} {h : Handle} {hooks : List Hook}
    {pristine : Snapshot} {payload : Payload} {changes : Attributes} {commit : Commit}
    (saved : d.finish { handle := h, hooks, stage := .submission pristine payload changes } =
      (after, .ok commit)) :
    ∃ server, d.Changes [.clock, .stored] (d.answered server) ∧ commit.workPackage.id = commit.id ∧
      after = ((d.answered server).settle h commit).runHooks commit hooks := by
  rw [finish_submission] at saved
  rcases hu : d.server.update d.clock.now pristine payload with ⟨error | stored, server⟩
  · simp only [submit_of_refused hu] at saved
    cases saved
  · simp only [submit_of_saved hu] at saved
    cases saved
    exact ⟨server, changes_answered d hu, rfl, rfl⟩

/-- A save that pends and is taken puts its snapshot into the cache, tells the subscribers, gives up
the change-set and runs the hooks, one after the other. -/
theorem exists_publishes {d after : Desk} (filed : d.Filed) {job : SaveJob}
    (known : d.drafts[job.handle]?.isSome = true) (pending : job.isPending = true) {commit : Commit}
    (saved : d.finish job = (after, .ok commit)) :
    ∃ held settled, d.Publishes job.handle job.hooks commit held settled after := by
  obtain ⟨sending, pristine, payload, changes, hchanges, hsent⟩ := exists_submission pending saved
  obtain ⟨server, hanswered, hmine, rfl⟩ := exists_answered_submission hsent
  have hready := hchanges.append hanswered
  exact ⟨_, _, publishes_of_settle (hready.bystands (by decide)) (hready.reports (by decide)) filed known
    hmine job.hooks⟩

end Desk

end Draftboard
