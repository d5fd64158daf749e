import Draftboard.Proofs.Desk.Drops
import Draftboard.Proofs.Replay.Gestures
import Draftboard.Proofs.Replay.Complete
import Draftboard.Proofs.Replay.Refreshed
/-!
# Which events a step publishes

The events of a run are those of its commits. A hook publishes them, and a drag on a timeline publishes
one more once the rows on display are refreshed.
-/

namespace Draftboard

theorem Server.makes_deleteAttachment (s : Server) (a : Attachment) :
    s.Makes .delete (s.deleteAttachment a).2 := by
  obtain ⟨attachments, heq⟩ := exists_deleteAttachment s a
  have hbegin := makes_begin s .delete
  rw [heq]
  exact ⟨hbegin.calls, hbegin.failures⟩

/-! ## The events of a commit -/

/-- What is published of a commit, the saved subject being the given one. -/
def DomainEvent.ofCommit (id : PackageId) (wasNew : Bool) (changes : Attributes)
    (subject : Option String) : List DomainEvent :=
  (if wasNew then .created id else .updated id) ::
    match changes[Attribute.subject]?, subject with
    | some _, some subject => [.renamed id subject]
    | _, _ => []

theorem DomainEvent.ofCommit_congr {changes : Attributes} {subject other : Option String}
    (same : ∀ value, changes[Attribute.subject]? = some value → subject = other) (id : PackageId)
    (wasNew : Bool) : ofCommit id wasNew changes subject = ofCommit id wasNew changes other := by
  unfold ofCommit
  cases hchanged : changes[Attribute.subject]? with
  | none => rfl
  | some value => rw [same value hchanged]

def Commit.events (c : Commit) : List DomainEvent :=
  DomainEvent.ofCommit c.id c.wasNew c.changes c.workPackage.subject?

def Hook.events (commit : Commit) : Hook → List DomainEvent
  | .publishEvents => commit.events
  | .invalidateActivity | .refreshParent | .probe .. | .custom .. => []

namespace Desk

/-! ## Publishing -/

/-- These events have been published, one after the other. -/
def Announces (d : Desk) (events : List DomainEvent) (d' : Desk) : Prop :=
  d'.bus = { d.bus with published := d.bus.published ++ events }

theorem Announces.of_bus_eq {d d' : Desk} (h : d'.bus = d.bus) : d.Announces [] d' := by
  rw [Announces, h, List.append_nil]

theorem Announces.trans {first middle last : Desk} {events later : List DomainEvent}
    (h : first.Announces events middle) (h' : middle.Announces later last) :
    first.Announces (events ++ later) last := by
  rw [Announces, h', h, List.append_assoc]

theorem announces_publishEvent (d : Desk) (event : DomainEvent) :
    d.Announces [event] (d.publishEvent event) := rfl

theorem announces_publishEvents (d : Desk) (commit : Commit) :
    d.Announces commit.events (d.publishEvents commit) := by
  unfold publishEvents Commit.events DomainEvent.ofCommit
  cases commit.changes[Attribute.subject]? with
  | none => rfl
  | some value =>
    cases commit.workPackage.subject? with
    | none => rfl
    | some subject => exact (announces_publishEvent d _).trans (announces_publishEvent _ _)

theorem announces_runHook (d : Desk) (commit : Commit) (hook : Hook) :
    d.Announces (hook.events commit) (d.runHook commit hook).1 := by
  cases hook with
  | publishEvents => exact announces_publishEvents d commit
  | invalidateActivity | refreshParent | probe | custom =>
    exact .of_bus_eq (bus_runHook d commit (by simp))

theorem announces_runHooks (d : Desk) (commit : Commit) (hooks : List Hook) :
    d.Announces (hooks.flatMap (·.events commit)) (d.runHooks commit hooks) := by
  unfold runHooks
  induction hooks generalizing d with
  | nil => exact .of_bus_eq rfl
  | cons hook rest ih => exact (announces_runHook d commit hook).trans (ih _)

theorem announces_save {d after : Desk} {h : Handle} {commit : Commit}
    (saved : d.save h = (after, .ok commit)) :
    d.Announces (d.hooks.flatMap (·.events commit)) after := by
  obtain ⟨settled, hbus, rfl⟩ := exists_settled saved
  exact Announces.trans (.of_bus_eq hbus) (announces_runHooks settled commit d.hooks)

theorem subject?_of_saved {d after : Desk} {h : Handle} {commit : Commit}
    (saved : d.save h = (after, .ok commit)) {value : AttrValue}
    (changed : commit.changes[Attribute.subject]? = some value) :
    (after.server.stored? commit.id).bind Snapshot.subject? = commit.workPackage.subject? := by
  obtain ⟨schema, payload, record, server, now, built, hrecord, rfl, hstored⟩ := exists_record saved
  have hsubmitted : (d.changeset h).submitted? Attribute.subject = some value := by
    rw [Changeset.submitted?, show (d.changeset h).changes[Attribute.subject]? = some value from changed]
    rfl
  have hsaved : record.attributes[Attribute.subject]? = some value := by
    cases hnew : (d.changeset h).pristine.isNew with
    | true => rw [attributes_saved_new hnew built hrecord, hsubmitted, Option.some_or]
    | false =>
      obtain ⟨current, hcurrent, -⟩ := Server.saved_of_stored hnew hrecord
      rw [attributes_saved_stored hnew built hcurrent hrecord, hsubmitted, Option.some_or]
  rw [hstored, Option.bind_some, Snapshot.subject?, Snapshot.subject?, Changeset.commit,
    Snapshot.value_retainFrom, Snapshot.value, hsaved]
  rfl

/-! ## Refreshing -/

def Answers (d : Desk) : Prop := d.server.failures.get .since = []

theorem announces_refreshRendered {r : Row} {d : Desk} (answers : d.Answers)
    (publishes : r.publishesEvents = true) (commit : Commit) (since : Instant) :
    d.Announces [.updated commit.id] (r.refreshRendered d commit since) := by
  have hfails := d.server.updatedSince_fails_iff r.rendered since
  rcases hu : d.server.updatedSince r.rendered since with ⟨error | updated, server⟩ <;> rw [hu] at hfails
  · have hqueued := (hfails error).1 rfl
    rw [show d.server.failures.get .since = [] from answers] at hqueued
    cases hqueued
  · rw [refreshRendered_updated commit hu, if_pos publishes]
    refine Announces.trans (.of_bus_eq ?_) (announces_publishEvent _ _)
    exact (changes_putPackages { d with server } updated).bus_eq (by decide)

/-- The hooks stay, and the server goes on to answer. -/
structure Steady (d d' : Desk) : Prop where
  hooks : d'.hooks = d.hooks
  answers : d.Answers → d'.Answers

theorem Steady.trans {first middle last : Desk} (h : first.Steady middle) (h' : middle.Steady last) :
    first.Steady last :=
  ⟨h'.hooks.trans h.hooks, fun answers => h'.answers (h.answers answers)⟩

theorem Steady.of_eq {d d' : Desk} (hooks : d'.hooks = d.hooks) (server : d'.server = d.server) :
    d.Steady d' := by
  refine ⟨hooks, fun answers => ?_⟩
  rw [Answers, server]
  exact answers

theorem Changes.steady {d d' : Desk} {parts : List Part} (changes : d.Changes parts d')
    (unasked : ∀ part ∈ parts, part ∉ Part.requests) : d.Steady d' :=
  .of_eq changes.keepsHouse.hooks (changes.server_eq unasked)

theorem Steady.of_makes {d d' : Desk} {op : Operation} (hooks : d'.hooks = d.hooks)
    (makes : d.server.Makes op d'.server) (other : op ≠ .since) : d.Steady d' :=
  ⟨hooks, fun answers => (makes.failures .since other).trans answers⟩

theorem steady_load (d : Desk) (id : PackageId) : d.Steady (d.load id).1 := by
  have hhooks := (changes_load d id).keepsHouse.hooks
  cases hc : d.cache.get? id with
  | some x =>
    rw [load_cached hc]
    exact .of_eq rfl rfl
  | none =>
    have hfetch := Server.makes_fetch d.server id
    rcases hf : d.server.fetch id with ⟨error | fresh, after⟩ <;> rw [hf] at hfetch
    · rw [load_missing hc hf]
      exact .of_makes rfl hfetch (by decide)
    · rw [load_fetched hc hf] at hhooks ⊢
      refine .of_makes hhooks ?_ (show Operation.fetch ≠ .since by decide)
      rw [server_putPackage]
      exact hfetch

theorem steady_ensureSchema (d : Desk) (typeHref : String) : d.Steady (d.ensureSchema typeHref).1 := by
  obtain ⟨server, schemas, hready, hserver⟩ := exists_ensureSchema d typeHref
  rw [hready]
  rcases hserver with rfl | rfl
  · exact .of_eq rfl rfl
  · exact .of_makes rfl (Server.makes_fetchSchema d.server typeHref) (by decide)

theorem steady_save (d : Desk) (h : Handle) : d.Steady (d.save h).1 := by
  have hends := save_ends d h
  refine ⟨(changes_save d h).keepsHouse.hooks, fun answers => ?_⟩
  rcases hs : d.save h with ⟨after, error | commit⟩ <;> rw [hs] at hends
  · obtain ⟨n, -, hsubmits⟩ := hends.exists_submits
    exact hsubmits.since.trans answers
  · exact hends.submits.since.trans answers

theorem steady_of_deleteAttachment {d : Desk} {a : Attachment} {result : Except ApiError Unit}
    {server : Server} (asked : d.server.deleteAttachment a = (result, server)) :
    d.Steady { d with server } := by
  have hmakes := d.server.makes_deleteAttachment a
  rw [asked] at hmakes
  exact .of_makes rfl hmakes (by decide)

theorem Chore.steady {d d' : Desk} (chore : d.Chore d') : d.Steady d' := by
  cases chore with
  | load id => exact steady_load d id
  | ensureSchema typeHref => exact steady_ensureSchema d typeHref
  | changeFor atHand form => exact (d.changes_changeFor _ form).steady (by decide)
  | detached x => exact .of_eq rfl rfl
  | edit keeps => exact (changes_rewrite d keeps).edit.steady (by decide)
  | reset h => exact (d.changes_reset h).steady (by decide)
  | stopEditing id => exact (d.changes_stopEditing id).steady (by decide)
  | @failedSave _ h _ failed =>
    have hsave := steady_save d h
    rw [failed] at hsave
    exact hsave
  | failedRemoval failed =>
    obtain ⟨error, server, notice, hdelete, rfl⟩ := exists_failedRemoval failed
    have hsteady := steady_of_deleteAttachment hdelete
    exact hsteady.trans (.of_eq rfl rfl)
  | notify notice => exact .of_eq rfl rfl
  | readClock => exact .of_eq rfl rfl

theorem Chores.steady {d d' : Desk} (chores : d.Chores d') : d.Steady d' := by
  induction chores with
  | refl => exact .of_eq rfl rfl
  | tail _ chore ih => exact ih.trans chore.steady

theorem steady_refreshRendered (r : Row) (d : Desk) (commit : Commit) (since : Instant) :
    d.Steady (r.refreshRendered d commit since) := by
  refine ⟨(r.changes_refreshRendered d commit since).keepsHouse.hooks, fun answers => ?_⟩
  have hcalm := Server.begin_of_failures_eq_nil answers
  rw [Answers, server_refreshRendered, Server.updatedSince, Server.request, hcalm]
  exact answers

theorem WindsUp.steady {d d' : Desk} (rest : d.WindsUp d') : d.Steady d' := by
  induction rest with
  | refl => exact .of_eq rfl rfl
  | tail _ after ih =>
    cases after with
    | chore chore => exact ih.trans chore.steady
    | refresh r commit since => exact ih.trans (steady_refreshRendered r _ commit since)

/-! ## One save and what comes after it -/

/-- The desk has saved once, and published events of its own after that. -/
inductive Commits (own : List DomainEvent) (d d' : Desk) (commit : Commit) : Prop
  | intro {ready after : Desk} {h : Handle} (bus : ready.bus = d.bus) (steady : d.Steady ready)
      (save : ready.save h = (after, .ok commit)) (own : after.Answers → after.Announces own d')
      (packages : d'.server.packages = after.server.packages)

theorem Commits.announces {own : List DomainEvent} {d d' : Desk} {commit : Commit}
    (commits : Commits own d d' commit) (answers : d.Answers)
    (hooks : d.hooks.flatMap (·.events commit) = commit.events) :
    d.Announces (DomainEvent.ofCommit commit.id commit.wasNew commit.changes
      ((d'.server.stored? commit.id).bind Snapshot.subject?) ++ own) d' := by
  cases commits with
  | @intro ready after h bus steady save own packages =>
    have hsave := announces_save save
    rw [steady.hooks, hooks] at hsave
    have hanswers := (steady_save ready h).answers (steady.answers answers)
    rw [save] at hanswers
    have hall := ((Announces.of_bus_eq bus).trans hsave).trans (own hanswers)
    have hstored : d'.server.stored? commit.id = after.server.stored? commit.id :=
      congrArg (·[commit.id]?) packages
    rw [hstored, DomainEvent.ofCommit_congr fun _ changed => subject?_of_saved save changed]
    exact hall

end Desk

theorem Row.ComesTo.commits {r : Row} {d d' : Desk} {commit : Commit}
    (saved : r.ComesTo d d' (some (.saved commit))) (publishes : r.publishesEvents = true) :
    Desk.Commits [.updated commit.id] d d' commit := by
  generalize houtcome : some (Outcome.saved commit) = outcome at saved
  cases saved with
  | unsaved _ unsaved =>
    subst houtcome
    simp at unsaved
  | @saved ready _ acting acts edits left =>
    have hbus := left.bus
    have hserver := left.server
    unfold save at houtcome hbus hserver
    rcases hs : ready.readClock.1.save acting.handle with ⟨after, error | saved⟩ <;>
      simp only [hs] at houtcome hbus hserver
    · cases houtcome
    · cases houtcome
      have htold :
          (if acting.notifiesSuccess then after.notify (.saved commit.id) else after).bus = after.bus ∧
          (if acting.notifiesSuccess then after.notify (.saved commit.id) else after).server =
            after.server := by
        split <;> exact ⟨rfl, rfl⟩
      generalize (if acting.notifiesSuccess then after.notify (.saved commit.id) else after) = told
        at htold hbus hserver
      have hready : d.Steady ready.readClock.1 := .of_eq edits.hooks edits.server
      have hquiet : ready.readClock.1.bus = d.bus := edits.bus
      refine .intro hquiet hready hs (fun answers => ?_) ?_
      · have hanswers : told.Answers := by
          rw [Desk.Answers, htold.2]
          exact answers
        have hrefresh := Desk.announces_refreshRendered hanswers
          (acts.publishesEvents.trans publishes) commit ready.readClock.2
        rw [Desk.Announces, hbus, hrefresh, htold.1]
      · rw [hserver, Desk.server_refreshRendered, (Server.sameStore_updatedSince ..).packages, htold.2]

namespace Replay

theorem isCommit_lastError (d : Desk) : (Session.lastError d).isCommit = false := by
  have hquiet := isQuiet_lastError d
  cases hlast : Session.lastError d with
  | committed =>
    rw [hlast] at hquiet
    cases hquiet
  | failed | modified | cleared | cancelled | noChange | removed => rfl

theorem Step.Ends.steady {step : Step} {d d' : Desk} {result : StepResult}
    (ends : step.Ends d d' result) : d.Steady d' := by
  cases ends with
  | quiet chores => exact chores.steady
  | saved works =>
    cases works with
    | @saved ready after _ h _ chores save rest =>
      have hsave := Desk.steady_save ready h
      rw [save] at hsave
      exact (chores.steady.trans hsave).trans rest.steady
  | removed asked gone =>
    obtain ⟨server, hdelete, rfl⟩ := Desk.exists_removal gone
    exact Desk.steady_of_deleteAttachment hdelete

/-! ## The events of a step -/

/-- What a step publishes itself when it has committed: an event once the rows on display are refreshed. -/
def Step.ownEvents (id : PackageId) : Step → List DomainEvent
  | .timeline .. => [.updated id]
  | .create _ | .set .. | .save _ | .reset _ | .stop _ | .groupDrop .. | .filterDefaults ..
  | .removeAttachment .. => []

/-- The events of a step, going by what it reports and by what the server has stored after it. -/
def Step.events (step : Step) (server : Server) : StepResult → List DomainEvent
  | .committed id wasNew _ changes =>
    DomainEvent.ofCommit id wasNew changes ((server.stored? id).bind Snapshot.subject?) ++
      step.ownEvents id
  | .failed .. | .modified _ | .cleared | .cancelled | .noChange | .removed => []

theorem Step.events_of_uncommitted (step : Step) (server : Server) {result : StepResult}
    (uncommitted : result.isCommit = false) : step.events server result = [] := by
  cases result with
  | committed => cases uncommitted
  | failed | modified | cleared | cancelled | noChange | removed => rfl

theorem Step.Ends.bus_of_uncommitted {step : Step} {d d' : Desk} {result : StepResult}
    (ends : step.Ends d d' result) (uncommitted : result.isCommit = false) : d'.bus = d.bus := by
  cases ends with
  | quiet chores => exact chores.changes.bus_eq (by decide)
  | saved => cases uncommitted
  | removed asked gone =>
    obtain ⟨server, -, rfl⟩ := Desk.exists_removal gone
    rfl

namespace Session

theorem hooks_events (settings : HookSettings) (publishes : settings.publishEvents = true)
    (commit : Commit) : (hooks settings).flatMap (·.events commit) = commit.events := by
  unfold hooks
  rw [publishes]
  cases settings.invalidateActivity <;> cases settings.refreshParent <;> simp [Hook.events]

/-! ## The steps that commit -/

section Commits

variable {s : Session}

theorem commits_save (sound : s.desk.Sound) {id : PackageId}
    (committed : (s.run (.save id)).2.isCommit = true) :
    ∃ commit, (s.run (.save id)).2 = .ofCommit commit ∧
      Desk.Commits [] s.desk (s.run (.save id)).1.desk commit := by
  have hstart := chores_changeset sound id
  unfold run save at committed ⊢
  rcases hc : s.changeset id with ⟨d, error | h⟩ <;> rw [hc] at hstart <;>
    simp only [hc] at committed ⊢
  · cases committed
  · rcases hs : d.save h with ⟨after, error | commit⟩ <;> simp only [hs] at committed ⊢
    · cases committed
    · refine ⟨commit, rfl, .intro (hstart.changes.bus_eq (by decide)) hstart.steady hs (fun _ => .of_bus_eq ?_) ?_⟩
      all_goals
        dsimp only [onDesk]
        split <;> rfl

theorem commits_groupDrop {id : PackageId} {grouping : Grouping} {group : String}
    (committed : (s.run (.groupDrop id grouping group)).2.isCommit = true) :
    ∃ commit, (s.run (.groupDrop id grouping group)).2 = .ofCommit commit ∧
      Desk.Commits [] s.desk (s.run (.groupDrop id grouping group)).1.desk commit := by
  have hsteady := Desk.steady_load s.desk id
  have hbus := (s.desk.changes_load id).bus_eq (by decide)
  unfold run groupDrop at committed ⊢
  rcases hl : s.desk.load id with ⟨loaded, error | x⟩ <;> rw [hl] at hsteady hbus <;>
    simp only [hl] at committed ⊢
  · cases committed
  · cases hname : grouping.name with
    | none =>
      rw [Grouping.applies, hname] at committed
      cases committed
    | some name =>
      have happlies : grouping.applies = true := by rw [Grouping.applies, hname]; rfl
      simp only [happlies, if_true, grouping.drop_eq loaded x group hname] at committed ⊢
      have hwritten := Desk.changes_written (d := loaded) x name (grouping.valueFor group)
      have hquiet := hwritten.bus_eq (by decide)
      rcases hs : (loaded.written x name (grouping.valueFor group)).1.save
        (loaded.written x name (grouping.valueFor group)).2 with ⟨after, error | commit⟩ <;>
        simp only [hs] at committed ⊢
      · exact absurd committed (Bool.eq_false_iff.1 (isCommit_lastError _))
      · refine ⟨commit, rfl, .intro (hquiet.trans hbus) ?_ hs (fun _ => .of_bus_eq rfl) rfl⟩
        exact hsteady.trans (hwritten.steady (by decide))

theorem commits_timeline (sound : s.desk.Sound) {id : PackageId} {direction : Timeline.Direction}
    {fromX : Float} {toX : Option Float} {escape : Bool} {rendered : List PackageId}
    (committed : (s.run (.timeline id direction fromX toX escape rendered)).2.isCommit = true) :
    ∃ commit, (s.run (.timeline id direction fromX toX escape rendered)).2 = .ofCommit commit ∧
      Desk.Commits [.updated commit.id] s.desk
        (s.run (.timeline id direction fromX toX escape rendered)).1.desk commit := by
  have hsteady := Desk.steady_load s.desk id
  have hbus := (s.desk.changes_load id).bus_eq (by decide)
  have hdrags := drags_timeline sound id direction fromX toX escape rendered
  generalize (s.run (.timeline id direction fromX toX escape rendered)).1.desk = after,
    (s.run (.timeline id direction fromX toX escape rendered)).2 = result at committed hdrags ⊢
  cases hdrags with
  | notLoaded => cases committed
  | @dragged loaded _ x row outcome load shows publishes comes =>
    rw [load] at hsteady hbus
    rcases outcome with _ | commit | _ | _ | _
    · cases committed
    · cases comes.commits publishes with
      | intro bus steady save own packages =>
        exact ⟨commit, rfl, .intro (bus.trans hbus) (hsteady.trans steady) save own packages⟩
    · cases committed
    · cases committed
    · exact absurd committed (Bool.eq_false_iff.1 (isCommit_lastError _))

theorem commits_run (sound : s.desk.Sound) (step : Step) (committed : (s.run step).2.isCommit = true) :
    ∃ commit, (s.run step).2 = .ofCommit commit ∧
      Desk.Commits (step.ownEvents commit.id) s.desk (s.run step).1.desk commit := by
  cases step with
  | save id => exact commits_save sound committed
  | groupDrop => exact commits_groupDrop committed
  | timeline => exact commits_timeline sound committed
  | create typeHref =>
    simp only [run, create] at committed
    split at committed <;> cases committed
  | set id name value =>
    simp only [run, set] at committed
    split at committed <;> cases committed
  | reset id =>
    simp only [run, reset] at committed
    split at committed <;> cases committed
  | stop id => cases committed
  | filterDefaults id filters =>
    simp only [run, filterDefaults] at committed
    split at committed
    · cases committed
    · split at committed <;> cases committed
  | removeAttachment id attachment =>
    simp only [run, removeAttachment] at committed
    rcases hl : s.attachments[id]? with _ | l <;> simp only [hl] at committed
    · cases committed
    · rcases hf : l.find? attachment with _ | target <;> simp only [hf] at committed
      · cases committed
      · split at committed
        · cases committed
        · exact absurd committed (Bool.eq_false_iff.1 (isCommit_lastError _))

end Commits

/-! ## Runs -/

theorem announces_run {s : Session} (sound : s.desk.Sound) (answers : s.desk.Answers)
    {settings : HookSettings} (hooked : s.desk.hooks = hooks settings)
    (publishes : settings.publishEvents = true) (step : Step) :
    s.desk.Announces (step.events (s.run step).1.desk.server (s.run step).2) (s.run step).1.desk := by
  cases hcommit : (s.run step).2.isCommit with
  | false =>
    rw [step.events_of_uncommitted _ hcommit]
    exact .of_bus_eq ((ends_run sound step).bus_of_uncommitted hcommit)
  | true =>
    obtain ⟨commit, hresult, hcommits⟩ := commits_run sound step hcommit
    rw [hresult]
    exact hcommits.announces answers (by rw [hooked, hooks_events settings publishes])

def eventsOfSteps (s : Session) : List Step → List (List DomainEvent)
  | [] => []
  | step :: rest =>
    let (after, result) := s.run step
    step.events after.desk.server result :: after.eventsOfSteps rest

theorem announces_runAll {s : Session} (sound : s.desk.Sound) (answers : s.desk.Answers)
    {settings : HookSettings} (hooked : s.desk.hooks = hooks settings)
    (publishes : settings.publishEvents = true) (index : Nat) (steps : List Step) :
    s.desk.Announces (s.eventsOfSteps steps).flatten (s.runAll index steps).1.desk := by
  induction steps generalizing s index with
  | nil => exact .of_bus_eq rfl
  | cons step rest ih =>
    have hends := ends_run sound step
    have hsteady := hends.steady
    have hstep := announces_run sound answers hooked publishes step
    exact hstep.trans (ih (hends.sound sound) (hsteady.answers answers) (hsteady.hooks.trans hooked)
      (index + 1))

theorem getElem?_eventsOfSteps (s : Session) (index : Nat) (done : List Step) (step : Step)
    (rest : List Step) :
    (s.eventsOfSteps (done ++ step :: rest))[done.length]? = some
      (step.events ((s.runAll index done).1.run step).1.desk.server
        ((s.runAll index done).1.run step).2) := by
  induction done generalizing s index with
  | nil => rfl
  | cons first done ih => exact ih (s.run first).1 (index + 1)

theorem length_eventsOfSteps (s : Session) (steps : List Step) :
    (s.eventsOfSteps steps).length = steps.length := by
  induction steps generalizing s with
  | nil => rfl
  | cons step rest ih => exact congrArg (· + 1) (ih (s.run step).1)

theorem answers_start {script : Script} {settings : EditorSettings} {clock : Clock} {s : Session}
    (opened : start script settings clock = .ok s) : s.desk.Answers := by
  have hschemas : (script.fixtures.schemas.foldl Server.insertSchema {}).failures.get .since = [] :=
    List.foldlRecOn (motive := fun s : Server => s.failures.get .since = []) _ _ rfl fun _ h _ _ => h
  have hpackages := List.foldlRecOn (motive := fun s : Server => s.failures.get .since = [])
    script.fixtures.workPackages Server.insert hschemas fun _ h _ _ => h
  rw [Desk.Answers, (desk_start opened).2]
  exact List.foldlRecOn (motive := fun s : Server => s.failures.get .since = []) _ Server.insertAttachment
    hpackages fun _ h _ _ => h

end Session

/-- With the hook on, a step that commits publishes the creation or the update of the work package, then
its new subject if the subject was changed and the stored one is a text. A drag publishes the update once
more, after the rows on display are refreshed. The other steps publish nothing. These are all events of
the run, and unless they are more than 64, its report has them in this order. -/
theorem commits_announced {name : String} {script : Script} {settings : EditorSettings} {clock : Clock}
    {report : Report} (ran : run name script settings clock = .ok report)
    (publishes : settings.hooks.publishEvents = true) :
    ∃ session, Session.start script settings clock = .ok session ∧
      let published := (session.runAll 0 script.steps).1.desk.bus.published
      let ofSteps := session.eventsOfSteps script.steps
      published = ofSteps.flatten ∧ (published.length ≤ 64 → report.events = ofSteps.flatten) ∧
      ofSteps.length = script.steps.length ∧
      ∀ done step rest, script.steps = done ++ step :: rest →
        ∃ result, report.steps[done.length]?.map (·.result) = some result ∧
          ofSteps[done.length]? = some
            (step.events (session.runAll 0 (done ++ [step])).1.desk.server result) := by
  obtain ⟨session, hstart, hsteps, -⟩ := exists_session ran
  obtain ⟨other, hother, hevents⟩ := events_of_run ran
  cases hstart.symm.trans hother
  have hdesk := (Session.desk_start hstart).2
  have hhooks : session.desk.hooks = Session.hooks settings.hooks := by rw [hdesk]
  have hall := Session.announces_runAll (Session.sound_start hstart) (Session.answers_start hstart) hhooks
    publishes 0 script.steps
  have hpublished : (session.runAll 0 script.steps).1.desk.bus.published =
      (session.eventsOfSteps script.steps).flatten := by
    rw [hall, hdesk]
    exact List.nil_append _
  refine ⟨session, hstart, hpublished, fun few => ?_, session.length_eventsOfSteps script.steps, ?_⟩
  · rw [hevents, if_pos few, hpublished]
  · intro done step rest taken
    refine ⟨((session.runAll 0 done).1.run step).2, ?_, ?_⟩
    · rw [hsteps, taken, Session.getElem?_runAll]
      rfl
    · rw [taken, session.getElem?_eventsOfSteps 0, Session.runAll_concat]

def undated : Fixtures :=
  let date : FieldSchema := { writable := true, kind := .date }
  let fields := (((∅ : TextMap FieldSchema).insert Attribute.subject { writable := true }).insert
    Attribute.startDate date).insert Attribute.dueDate date
  { schemas := [{ typeHref := "task", fields }]
    workPackages := [{ id := { text := "7" }, typeHref := "task" }] }

theorem commits_announced_renamed :
    let id : PackageId := { text := "7" }
    let steps : List Step :=
      [.set id Attribute.subject (.text "New"), .timeline id .create 0 none false [], .save id]
    ∃ report session, run "drag" { fixtures := undated, steps } {} default = .ok report ∧
      Session.start { fixtures := undated, steps } {} default = .ok session ∧
      session.eventsOfSteps steps = [[], [.updated id, .renamed id "New", .updated id], [.updated id]] ∧
      report.events = [.updated id, .renamed id "New", .updated id, .updated id] := by
  intro id steps
  have starts : (Session.start { fixtures := undated, steps } {} default).toOption.isSome = true := by
    decide +kernel
  obtain ⟨report, ran⟩ := exists_report "drag" starts
  obtain ⟨session, hstart, hpublished, hevents, -⟩ := commits_announced ran rfl
  have hsteps :
      (Session.start { fixtures := undated, steps } {} default).toOption.map (·.eventsOfSteps steps) =
        some [[], [.updated id, .renamed id "New", .updated id], [.updated id]] := by decide +kernel
  rw [hstart] at hsteps
  have hofSteps : session.eventsOfSteps steps = _ := Option.some.inj hsteps
  rw [hofSteps] at hpublished hevents
  exact ⟨report, session, ran, hstart, hofSteps, hevents (by rw [hpublished]; decide)⟩

/-- A drag that gives a work package its dates is one commit, and its update is published twice. -/
theorem drag_announced_twice :
    let id : PackageId := { text := "7" }
    let script : Script := { fixtures := undated, steps := [.timeline id .create 0 none false []] }
    (run "drag" script {} default).toOption.map
      (fun report => (report.steps.map (·.result.committedId?), report.events)) =
        some ([some id], [.updated id, .updated id]) := by
  decide +kernel

end Replay

end Draftboard
