import Mathlib.Logic.Relation
import Draftboard.Desk.Grouping
import Draftboard.Desk.Row
import Draftboard.Proofs.Desk.Saves
/-!
# What may change

All that is done on a desk comes down to small changes, each of one kind. For an operation it is said
once which kinds it is made of. That it leaves something alone then follows from what the kinds leave
alone.
-/

namespace Draftboard

/-- A kind of change. -/
inductive Part where
  /-- The server is asked, and stores what it stored before. -/
  | asked
  | stored
  /-- Others use the server. -/
  | elsewhere
  | clock
  | cache
  | schemas
  | activity
  /-- A change-set is written to, but neither its flag nor what it is based on. -/
  | edits
  | flags
  | drafts
  | filed
  | unfiled
  | watchers
  /-- Views are told the value that they are to show. -/
  | pushes
  /-- Commits are told, and probes run. -/
  | deliveries
  | events
  | notices
deriving DecidableEq

def SchemaStage.parts : SchemaStage → List Part
  | .looks | .has _ => []
  | .asks => [.asked]
  | .inserts _ => [.schemas]

theorem SchemaStage.parts_subset (stage : SchemaStage) : stage.parts ⊆ [.asked, .schemas] := by
  cases stage <;> simp [SchemaStage.parts]

def Part.requests : List Part := [.asked, .stored, .elsewhere]

def Part.hooks : List Part := [.asked, .cache, .activity, .events, .deliveries]

def SaveStage.parts : SaveStage → List Part
  | .schema _ (.has _) => [.flags]
  | .schema _ stage => .flags :: stage.parts
  | .submission .. =>
    [.clock, .stored, .cache, .deliveries, .flags, .edits, .unfiled, .pushes]
  | .followUp _ => Part.hooks
  | .refetch .. => [.asked, .cache]
  | .finished _ => []

def Part.saving : List Part :=
  [.asked, .stored, .clock, .cache, .schemas, .activity, .edits, .flags, .unfiled, .pushes, .deliveries,
    .events]

/-- What an action may change that is no save and has no flag at hand. -/
def Part.acting : List Part :=
  [.asked, .elsewhere, .cache, .schemas, .edits, .drafts, .filed, .unfiled, .watchers, .pushes]

/-- What rows and groups may change, which tell the user how their saves went. -/
def Part.working : List Part := .drafts :: .filed :: .notices :: Part.saving

theorem SaveStage.parts_subset_saving (stage : SaveStage) : stage.parts ⊆ Part.saving := by
  cases stage with
  | schema pristine stage => cases stage <;> simp [SaveStage.parts, SchemaStage.parts, Part.saving]
  | _ => simp [SaveStage.parts, Part.hooks, Part.saving]

namespace Desk

inductive Change (d : Desk) : Part → Desk → Prop
  | ask {call : Server.Call} (same : d.server.SameStore (d.server.perform call)) :
      Change d .asked { d with server := d.server.perform call }
  | store (call : Server.Call) : Change d .stored { d with server := d.server.perform call }
  | replace (server : Server) : Change d .elsewhere { d with server }
  | tick : Change d .clock d.readClock.1
  | put (x : Snapshot) : Change d .cache (d.putPackage x)
  | drop (id : PackageId) : Change d .cache (d.dropPackage id)
  | schema (schema : Schema) :
      Change d .schemas { d with schemas := d.schemas.insert schema.typeHref schema }
  | forget (id : PackageId) : Change d .activity { d with activity := d.activity.erase id }
  | edit (h : Handle) {f : Changeset → Changeset}
      (pristine : (f (d.changeset h)).pristine = (d.changeset h).pristine)
      (inFlight : (f (d.changeset h)).inFlight = (d.changeset h).inFlight) :
      Change d .edits (d.modifyQuietly h f)
  | flag (h : Handle) (inFlight : Bool) : Change d .flags (d.setInFlight h inFlight)
  | draft {draft : Draft} (lowered : draft.changeset.inFlight = false) :
      Change d .drafts (d.newDraft draft).1
  | file {id : PackageId} {h : Handle} (known : d.drafts[h]?.isSome = true)
      (id_eq : (d.changeset h).id = id) :
      Change d .filed { d with registry := d.registry.insert id h }
  | unfile (id : PackageId) : Change d .unfiled { d with registry := d.registry.erase id }
  | watch (views : ViewHub) (cache : PackageCache) (entries : cache.entries = d.cache.entries) :
      Change d .watchers { d with views, cache }
  | push (id : PackageId) : Change d .pushes (d.pushViews id)
  | tell (commit : Commit) : Change d .deliveries (d.publishCommit commit)
  | probe (name : String) (id : PackageId) (cached : Option Nat) :
      Change d .deliveries (d.deliver (.probe name id cached))
  | publish (event : DomainEvent) : Change d .events (d.publishEvent event)
  | notify (notice : Notice) : Change d .notices (d.notify notice)

/-- Any number of changes of these kinds. -/
def Changes (parts : List Part) : Desk → Desk → Prop :=
  Relation.ReflTransGen fun d d' => ∃ part ∈ parts, d.Change part d'

/-! ## Composing -/

section Compose

variable {d middle d' : Desk} {part : Part} {parts more : List Part}

theorem Changes.refl (parts : List Part) (d : Desk) : d.Changes parts d := Relation.ReflTransGen.refl

theorem Change.changes (change : d.Change part d') : d.Changes [part] d' :=
  .single ⟨part, List.mem_cons_self, change⟩

theorem Changes.mono (changes : d.Changes parts d') (within : parts ⊆ more) : d.Changes more d' :=
  changes.lift id fun _ _ ⟨part, mem, change⟩ => ⟨part, within mem, change⟩

theorem Changes.trans (changes : d.Changes parts middle) (later : middle.Changes parts d') :
    d.Changes parts d' := Relation.ReflTransGen.trans changes later

theorem Changes.append (changes : d.Changes parts middle) (later : middle.Changes more d') :
    d.Changes (parts ++ more) d' :=
  (changes.mono (List.subset_append_left parts more)).trans
    (later.mono (List.subset_append_right parts more))

theorem Changes.foldl {α : Type} {step : Desk → α → Desk}
    (hstep : ∀ (d : Desk) (a : α), d.Changes parts (step d a)) (list : List α) (d : Desk) :
    d.Changes parts (list.foldl step d) := by
  induction list generalizing d with
  | nil => exact .refl parts d
  | cons a rest ih => exact (hstep d a).trans (ih (step d a))

/-- What each change of these kinds leaves alone, any number of them leaves alone. -/
theorem Changes.lift {R : Desk → Desk → Prop} (refl : ∀ d, R d d)
    (trans : ∀ {first middle last}, R first middle → R middle last → R first last)
    (one : ∀ {d part d'}, part ∈ parts → d.Change part d' → R d d')
    (changes : d.Changes parts d') : R d d' := by
  induction changes with
  | refl => exact refl d
  | tail _ change ih =>
    obtain ⟨part, mem, change⟩ := change
    exact trans ih (one mem change)

end Compose

/-! ## The server -/

section Server

variable {d d' : Desk} {part : Part} {parts : List Part}

theorem Change.exists_run (change : d.Change part d') (ours : part ≠ .elsewhere) :
    ∃ calls, d'.server = d.server.run calls := by
  cases change with
  | @ask call _ => exact ⟨[call], rfl⟩
  | store call => exact ⟨[call], rfl⟩
  | replace => exact absurd rfl ours
  | put x => exact ⟨[], server_putPackage d x⟩
  | drop id => exact ⟨[], server_dropPackage d id⟩
  | _ => exact ⟨[], rfl⟩

theorem Change.server_eq (change : d.Change part d') (unasked : part ∉ Part.requests) :
    d'.server = d.server := by
  cases change with
  | ask | store | replace => exact absurd (by decide) unasked
  | put x => exact server_putPackage d x
  | drop id => exact server_dropPackage d id
  | _ => rfl

theorem Changes.server_eq (changes : d.Changes parts d') (unasked : ∀ part ∈ parts, part ∉ Part.requests) :
    d'.server = d.server :=
  changes.lift (R := fun d d' => d'.server = d.server) (fun _ => rfl) (fun h h' => h'.trans h)
    fun mem change => change.server_eq (unasked _ mem)

theorem Changes.exists_run (changes : d.Changes parts d') (ours : .elsewhere ∉ parts) :
    ∃ calls, d'.server = d.server.run calls :=
  changes.lift (R := fun d d' => ∃ calls, d'.server = d.server.run calls) (fun _ => ⟨[], rfl⟩)
    (fun ⟨first, hfirst⟩ ⟨later, hlater⟩ =>
      ⟨first ++ later, by rw [Server.run_append, ← hfirst, hlater]⟩)
    fun mem change => change.exists_run (ne_of_mem_of_not_mem mem ours)

end Server

/-! ## The cache and requests -/

theorem changes_putPackages (d : Desk) (snapshots : List Snapshot) :
    d.Changes [.cache] (d.putPackages snapshots) :=
  .foldl (fun _ x => (Change.put x).changes) snapshots d

theorem changes_load (d : Desk) (id : PackageId) : d.Changes [.asked, .cache] (d.load id).1 := by
  cases hc : d.cache.get? id with
  | some x =>
    rw [load_cached hc]
    exact .refl _ d
  | none =>
    have hask : d.Changes [.asked] { d with server := d.server.perform (.fetch id) } :=
      (Change.ask (Server.sameStore_fetch d.server id)).changes
    rcases hf : d.server.fetch id with ⟨error | fresh, after⟩ <;> rw [Server.perform, hf] at hask
    · rw [load_missing hc hf]
      exact hask.mono (by decide)
    · rw [load_fetched hc hf]
      exact hask.append (Change.put fresh).changes

theorem changes_refetch (d : Desk) (parent : PackageId) :
    d.Changes [.asked, .cache] (d.refetch parent).1 := by
  have hask : d.Changes [.asked] { d with server := d.server.perform (.fetch parent) } :=
    (Change.ask (Server.sameStore_fetch d.server parent)).changes
  rcases hf : d.server.fetch parent with ⟨error | fresh, after⟩ <;> rw [Server.perform, hf] at hask
  · rw [refetch_missing hf]
    exact hask.mono (by decide)
  · rw [refetch_fetched hf]
    exact hask.append (Change.put fresh).changes

theorem changes_fetchSchema (d : Desk) (typeHref : String) :
    d.Changes [.asked, .schemas] (d.fetchSchema typeHref).1 := by
  have hask : d.Changes [.asked] { d with server := d.server.perform (.fetchSchema typeHref) } :=
    (Change.ask (Server.sameStore_fetchSchema d.server typeHref)).changes
  unfold fetchSchema request
  dsimp only
  rcases hf : d.server.fetchSchema typeHref with ⟨error | schema, after⟩ <;> rw [Server.perform, hf] at hask
  · exact hask.mono (by decide)
  · exact hask.append (Change.schema schema).changes

theorem changes_ensureSchema (d : Desk) (typeHref : String) :
    d.Changes [.asked, .schemas] (d.ensureSchema typeHref).1 := by
  unfold ensureSchema
  split
  · exact .refl _ d
  · exact changes_fetchSchema d typeHref

theorem changes_stepSchema (d : Desk) (typeHref : String) (stage : SchemaStage) :
    d.Changes stage.parts (d.stepSchema typeHref stage).1 := by
  cases stage with
  | looks =>
    unfold stepSchema
    dsimp only
    split <;> exact .refl _ d
  | asks =>
    have hask : d.Changes [.asked] { d with server := d.server.perform (.fetchSchema typeHref) } :=
      (Change.ask (Server.sameStore_fetchSchema d.server typeHref)).changes
    unfold stepSchema request
    dsimp only
    rcases hf : d.server.fetchSchema typeHref with ⟨error | schema, after⟩ <;>
      rw [Server.perform, hf] at hask <;> exact hask
  | inserts schema => exact (Change.schema schema).changes
  | has schema => exact .refl _ d

/-! ## Change-sets -/

/-- A change-set with its flag up is one that was added and had its flag raised. -/
theorem changes_newDraft (d : Desk) (draft : Draft) :
    d.Changes [.drafts, .flags] (d.newDraft draft).1 := by
  let lowered : Draft := { draft with changeset := { draft.changeset with inFlight := false } }
  have hdrafts : ((d.newDraft lowered).1.setInFlight (d.lastHandle + 1) draft.changeset.inFlight).drafts =
      (d.newDraft draft).1.drafts := by
    refine Std.ExtTreeMap.ext_getElem? fun k => ?_
    simp only [setInFlight, modifyQuietly, Std.ExtTreeMap.getElem?_modify, getElem?_drafts_newDraft,
      Std.LawfulEqOrd.compare_eq_iff_eq]
    split <;> rfl
  have heq : (d.newDraft lowered).1.setInFlight (d.lastHandle + 1) draft.changeset.inFlight =
      (d.newDraft draft).1 := by
    unfold setInFlight modifyQuietly at hdrafts ⊢
    dsimp only at hdrafts
    rw [hdrafts]
    rfl
  rw [← heq]
  exact (Change.draft rfl).changes.append (Change.flag _ _).changes

theorem changes_startEditing (d : Desk) (snapshot : Snapshot) (form : Option Form) :
    d.Changes [.drafts, .filed] (d.startEditing snapshot form).1 := by
  let draft : Draft := { changeset := { pristine := snapshot, form }, reported := true }
  have hdraft : d.Changes [.drafts] (d.newDraft draft).1 := (Change.draft rfl).changes
  have hmine : (d.newDraft draft).1.drafts[d.lastHandle + 1]? = some draft := by
    rw [getElem?_drafts_newDraft, if_pos rfl]
  refine hdraft.append (Change.file ?_ ?_).changes
  · exact Option.isSome_of_eq_some hmine
  · rw [changeset]
    exact congrArg (fun found => ((found.map Draft.changeset).getD default).id) hmine

theorem changes_changeFor (d : Desk) (snapshot : Snapshot) (form : Option Form) :
    d.Changes [.drafts, .filed] (d.changeFor snapshot form).1 := by
  unfold changeFor
  dsimp only
  split
  · split
    · exact changes_startEditing d _ form
    · exact .refl _ d
  · exact changes_startEditing d _ form

theorem changes_changeForId (d : Desk) (id : PackageId) :
    d.Changes [.asked, .cache, .schemas, .drafts, .filed] (d.changeForId id).1 := by
  have hload : d.Changes [.asked, .cache, .schemas, .drafts, .filed] (d.load id).1 :=
    (changes_load d id).mono (by decide)
  unfold changeForId
  rcases hl : d.load id with ⟨loaded, error | snapshot⟩ <;> rw [hl] at hload
  · exact hload
  · have hschema := hload.trans ((changes_ensureSchema loaded snapshot.typeHref).mono (by decide))
    dsimp only at hschema ⊢
    rcases hs : loaded.ensureSchema snapshot.typeHref with ⟨ready, error | schema⟩ <;>
      rw [hs] at hschema
    · exact hschema
    · exact hschema.trans ((changes_changeFor ready snapshot none).mono (by decide))

theorem Changes.edit {α : Type} {d : Desk} {h : Handle} {f : Changeset → Changeset × α}
    {parts : List Part} (writes : d.Changes parts (d.modifyQuietly h fun _ => (f (d.changeset h)).1)) :
    d.Changes (parts ++ [.pushes]) (d.edit h f).1 := by
  unfold Desk.edit
  dsimp only
  split
  · exact writes.append (Change.push _).changes
  · exact writes.mono (List.subset_append_left ..)

theorem changes_edit {α : Type} (d : Desk) {h : Handle} {f : Changeset → Changeset × α}
    (pristine : (f (d.changeset h)).1.pristine = (d.changeset h).pristine)
    (inFlight : (f (d.changeset h)).1.inFlight = (d.changeset h).inFlight) :
    d.Changes [.edits, .pushes] (d.edit h f).1 :=
  (Change.edit h pristine inFlight).changes.edit

theorem changes_setValue (d : Desk) (h : Handle) (name : String) (value : AttrValue) :
    d.Changes [.edits, .pushes] (d.setValue h name value) :=
  d.changes_edit (Changeset.pristine_setValue _ name value) rfl

theorem changes_setValues (d : Desk) (h : Handle) (writes : List (String × AttrValue)) :
    d.Changes [.edits, .pushes] (d.setValues h writes) :=
  d.changes_edit (Changeset.pristine_setValues _ writes) (Changeset.inFlight_setValues _ writes)

/-- An edit that moves the flag is one that leaves it alone, after the flag was moved. -/
theorem changes_rewrite (d : Desk) {h : Handle} {c : Changeset}
    (pristine : c.pristine = (d.changeset h).pristine) :
    d.Changes [.flags, .edits] (d.modifyQuietly h fun _ => c) := by
  cases hd : d.drafts[h]? with
  | none =>
    rw [modifyQuietly_of_unknown hd]
    exact .refl _ d
  | some draft =>
    have hraised : (d.setInFlight h c.inFlight).changeset h =
        { d.changeset h with inFlight := c.inFlight } := by
      rw [setInFlight, changeset_modifyQuietly d h h _ (by simp [hd]), if_pos rfl]
    have hedit : (d.setInFlight h c.inFlight).Changes [.edits]
        ((d.setInFlight h c.inFlight).modifyQuietly h fun _ => c) :=
      (Change.edit h (by rw [hraised, pristine]) (by rw [hraised])).changes
    rw [setInFlight, modifyQuietly_modifyQuietly] at hedit
    exact (Change.flag h c.inFlight).changes.append hedit

theorem changes_reset (d : Desk) (h : Handle) :
    d.Changes [.edits, .unfiled, .pushes] (d.reset h) := by
  have hclear : d.Changes [.edits] (d.modifyQuietly h Changeset.clear) := (Change.edit h rfl rfl).changes
  have herase := hclear.append (Change.unfile (d.changeset h).id).changes
  unfold reset
  dsimp only
  split
  · split
    · exact herase.mono (by decide)
    · exact herase.append (Change.push _).changes
  · exact hclear.mono (by decide)

theorem changes_stopEditing (d : Desk) (id : PackageId) :
    d.Changes [.unfiled, .edits, .pushes] (d.stopEditing id) := by
  unfold stopEditing
  split
  · exact .refl _ d
  · rename_i h _
    have herase := (Change.unfile (d := d) id).changes
    have hclear := herase.append (Change.edit h (f := Changeset.clear) rfl rfl).changes
    dsimp only
    split
    · exact hclear.append (Change.push id).changes
    · exact hclear.mono (by decide)

/-! ## Saves -/

theorem changes_settle (d : Desk) (h : Handle) (commit : Commit) :
    d.Changes [.cache, .deliveries, .flags, .edits, .unfiled, .pushes] (d.settle h commit) :=
  ((Change.put commit.workPackage).changes.append (Change.tell commit).changes).append
    (Change.flag h false).changes |>.append (changes_reset _ h)

theorem changes_answered (d : Desk) {now : Instant} {pristine : Snapshot} {payload : Payload}
    {result : Except ApiError Snapshot} {server : Server}
    (sent : d.server.update now pristine payload = (result, server)) :
    d.Changes [.clock, .stored] (d.answered server) := by
  have hstore := (Change.tick (d := d)).changes.append
    (Change.store (.update now pristine payload)).changes
  have hserver : d.readClock.1.server.perform (.update now pristine payload) = server :=
    congrArg Prod.snd sent
  rw [hserver] at hstore
  exact hstore

theorem changes_writeCache (d : Desk) (write : CacheWrite) : d.Changes [.cache] (d.writeCache write) := by
  cases write with
  | put x => exact (Change.put x).changes
  | drop id => exact (Change.drop id).changes

theorem changes_publishEvents (d : Desk) (commit : Commit) :
    d.Changes [.events] (d.publishEvents commit) := by
  have hsaved := (Change.publish (d := d) (if commit.wasNew then .created commit.id else .updated commit.id)).changes
  unfold publishEvents
  dsimp only
  split
  · exact hsaved.trans (Change.publish _).changes
  · exact hsaved

theorem changes_runHook (d : Desk) (commit : Commit) (hook : Hook) :
    d.Changes Part.hooks (d.runHook commit hook).1 := by
  cases hook with
  | invalidateActivity => exact (Change.forget commit.id).changes.mono (by decide)
  | refreshParent =>
    unfold runHook
    dsimp only
    split
    · exact .refl _ d
    · exact ((Change.drop _).changes.append (changes_refetch _ _)).mono (by decide)
  | publishEvents => exact (changes_publishEvents d commit).mono (by decide)
  | probe name fails => exact (Change.probe ..).changes.mono (by decide)
  | custom writes fails =>
    exact (Changes.foldl changes_writeCache (writes commit d.cache.entries) d).mono (by decide)

theorem changes_runHooks (d : Desk) (commit : Commit) (hooks : List Hook) :
    d.Changes Part.hooks (d.runHooks commit hooks) :=
  .foldl (fun d hook => changes_runHook d commit hook) hooks d

theorem changes_seekJob (d : Desk) (job : SaveJob) (pristine : Snapshot) (stage : SchemaStage) :
    d.Changes (.flags :: stage.parts) (d.seekJob job pristine stage).1 := by
  have hstep : d.Changes (.flags :: stage.parts) (d.stepSchema pristine.typeHref stage).1 :=
    (changes_stepSchema d pristine.typeHref stage).mono (List.subset_cons_self ..)
  unfold seekJob
  rcases hs : d.stepSchema pristine.typeHref stage with ⟨after, error | next⟩ <;> rw [hs] at hstep
  · exact hstep.trans ((Change.flag job.handle false).changes.mono (by simp))
  · exact hstep

theorem changes_composeJob (d : Desk) (job : SaveJob) (pristine : Snapshot) (schema : Schema) :
    d.Changes [.flags] (d.composeJob job pristine schema).1 := by
  unfold composeJob
  split
  · exact .refl _ d
  · exact (Change.flag job.handle false).changes

theorem changes_startSave (d : Desk) (h : Handle) : d.Changes [.flags] (d.startSave h).1 := by
  cases hf : (d.changeset h).inFlight with
  | true =>
    rw [startSave_of_inFlight hf]
    exact .refl _ d
  | false =>
    rw [startSave_of_free hf]
    exact (Change.flag h true).changes

theorem changes_advance (d : Desk) (job : SaveJob) : d.Changes job.stage.parts (d.advance job).1 := by
  obtain ⟨h, hooks, stage⟩ := job
  cases stage with
  | schema pristine stage =>
    cases stage with
    | has schema => exact changes_composeJob d _ pristine schema
    | looks | asks | inserts => exact changes_seekJob d _ pristine _
  | submission pristine payload changes =>
    rcases hu : d.server.update d.clock.now pristine payload with ⟨error | saved, server⟩
    all_goals have hanswered := changes_answered d hu
    · simp only [advance, submit_of_refused hu]
      exact (hanswered.append (Change.flag h false).changes).mono (by simp [SaveStage.parts])
    · simp only [advance, submit_of_saved hu]
      exact hanswered.append (changes_settle _ h _)
  | followUp commit =>
    cases hooks with
    | nil => exact .refl _ d
    | cons hook rest =>
      have hran := changes_runHook d commit hook
      cases hook with
      | refreshParent =>
        cases hp : commit.workPackage.parentId? with
        | none =>
          simp only [advance, hp]
          exact .refl _ d
        | some parent =>
          simp only [advance, hp]
          exact (Change.drop parent).changes.mono (by simp [SaveStage.parts, Part.hooks])
      | _ => exact hran
  | refetch commit parent => exact changes_refetch d parent
  | finished result => exact .refl _ d

/-- What every step of a save preserves, the whole save does. -/
theorem lift_finish {R : Desk → Desk → Prop} (refl : ∀ d, R d d)
    (trans : ∀ {first middle last}, R first middle → R middle last → R first last)
    (step : ∀ d job, R d (d.advance job).1) (d : Desk) (job : SaveJob) : R d (d.finish job).1 := by
  have hall : ∀ fuel d job, R d (advanceAll fuel d job).1 := by
    intro fuel
    induction fuel with
    | zero => exact fun d _ => refl d
    | succ fuel ih => exact fun d job => trans (step d job) (ih _ _)
  exact hall job.stepsLeft d job

theorem changes_finish (d : Desk) (job : SaveJob) : d.Changes Part.saving (d.finish job).1 :=
  lift_finish (.refl _) .trans (fun d job => (changes_advance d job).mono job.stage.parts_subset_saving)
    d job

theorem changes_save (d : Desk) (h : Handle) : d.Changes Part.saving (d.save h).1 :=
  ((changes_startSave d h).mono (by decide)).trans (changes_finish _ _)

theorem changes_of_asked {d ready : Desk} {h : Handle} {typeHref : String}
    {answer : Except ApiError Schema}
    (asked : (d.setInFlight h true).ensureSchema typeHref = (ready, answer)) :
    d.Changes [.flags, .asked, .schemas] ready := by
  have hschema := (Change.flag (d := d) h true).changes.append
    (changes_ensureSchema (d.setInFlight h true) typeHref)
  rw [asked] at hschema
  exact hschema

theorem changes_failedSave {d after : Desk} {h : Handle} {error : EditError}
    (failed : d.save h = (after, .error error)) :
    d.Changes [.flags, .asked, .schemas, .clock] after := by
  have hasked : ∀ {typeHref : String} {ready : Desk} {answer : Except ApiError Schema},
      (d.setInFlight h true).ensureSchema typeHref = (ready, answer) →
      d.Changes [.flags, .asked, .schemas, .clock] ready :=
    fun asked => (changes_of_asked asked).mono (by decide)
  have hlower : ∀ d : Desk, d.Changes [.flags, .asked, .schemas, .clock] (d.setInFlight h false) :=
    fun d => (Change.flag h false).changes.mono (by decide)
  cases ends_of_save failed with
  | busy => exact .refl _ d
  | noSchema _ asked => exact (hasked asked).trans (hlower _)
  | invalid _ asked => exact (hasked asked).trans (hlower _)
  | @refused ready schema payload error server _ asked _ sent =>
    -- An update that is refused stores nothing, so it is a question like others.
    have hserver : ready.readClock.1.server.perform
        (.update ready.clock.now (d.changeset h).pristine payload) = server := congrArg Prod.snd sent
    have hsame : ready.readClock.1.server.SameStore (ready.readClock.1.server.perform
        (.update ready.clock.now (d.changeset h).pristine payload)) := by
      rw [hserver, Server.update_eq_error sent]
      exact Server.sameStore_begin ready.server .update
    have hanswered := Change.tick.changes.append (Change.ask hsame).changes
    rw [hserver] at hanswered
    exact ((hasked asked).trans (hanswered.mono (by decide))).trans (hlower _)

/-! ## Views -/

theorem changes_linkViews (d : Desk) (id : PackageId) : d.Changes [.watchers] (d.linkViews id) := by
  unfold linkViews
  split
  · exact .refl _ d
  · exact (Change.watch _ (d.cache.subscribe id .views).1 rfl).changes

theorem changes_unlinkViews (d : Desk) (id : PackageId) : d.Changes [.watchers] (d.unlinkViews id) := by
  unfold unlinkViews
  split
  · exact .refl _ d
  · rename_i link _
    exact (Change.watch _ (d.cache.unsubscribe id link).1 rfl).changes

theorem changes_subscribeView (d : Desk) (id : PackageId) :
    d.Changes [.watchers] (d.subscribeView id).1 :=
  (changes_linkViews d id).trans (Change.watch _ _ rfl).changes

theorem changes_unsubscribeView (d : Desk) (id : PackageId) (number : Nat) :
    d.Changes [.watchers] (d.unsubscribeView id number).1 := by
  unfold unsubscribeView
  dsimp only
  split
  · exact .refl _ d
  · split
    · exact (Change.watch _ _ rfl).changes.trans (changes_unlinkViews _ id)
    · exact (Change.watch _ _ rfl).changes

end Desk

/-! ## Rows and groups -/

namespace Row

theorem changes_preview (r : Row) (d : Desk) (direction : Timeline.Direction) (days : Int) (day : Date) :
    d.Changes [.edits, .pushes] (r.preview d direction days day) :=
  d.changes_setValues ..

theorem changes_refreshRendered (r : Row) (d : Desk) (commit : Commit) (since : Instant) :
    d.Changes [.asked, .cache, .events, .notices] (r.refreshRendered d commit since) := by
  have hask : d.Changes [.asked] { d with server := d.server.perform (.updatedSince r.rendered since) } :=
    (Desk.Change.ask (Server.sameStore_updatedSince d.server r.rendered since)).changes
  unfold refreshRendered Desk.request
  dsimp only
  rcases hu : d.server.updatedSince r.rendered since with ⟨error | updated, server⟩ <;>
    rw [Server.perform, hu] at hask
  · exact (hask.append (Desk.Change.notify _).changes).mono (by decide)
  · have hput := hask.append (Desk.changes_putPackages { d with server } updated)
    dsimp only
    split
    · exact (hput.append (Desk.Change.publish _).changes).mono (by decide)
    · exact hput.mono (by decide)

theorem changes_save (r : Row) (d : Desk) : d.Changes Part.working (r.save d).1 := by
  have hsave : d.Changes Part.working (d.readClock.1.save r.handle).1 :=
    (Desk.Change.tick.changes.append (Desk.changes_save d.readClock.1 r.handle)).mono (by decide)
  have hnotify : ∀ (d : Desk) (notice : Notice), d.Changes Part.working (d.notify notice) :=
    fun d notice => (Desk.Change.notify notice).changes.mono (by decide)
  unfold save
  rcases hs : d.readClock.1.save r.handle with ⟨after, error | commit⟩ <;> rw [hs] at hsave <;>
    simp only [hs]
  · exact hsave.trans (hnotify after _)
  · refine (hsave.trans ?_).trans ((changes_refreshRendered ..).mono (by decide))
    split
    · exact hnotify after _
    · exact .refl _ after

theorem changes_deactivate (r : Row) (d : Desk) (cancelled : Bool) :
    d.Changes Part.working (r.deactivate d cancelled).1 := by
  have hreset : ∀ d : Desk, d.Changes Part.working (d.reset r.handle) :=
    fun d => (Desk.changes_reset d r.handle).mono (by decide)
  unfold deactivate
  cases cancelled with
  | true => exact hreset d
  | false =>
    cases (d.changeset r.handle).isEmpty with
    | true => exact hreset d
    | false => exact (changes_save r d).trans (hreset _)

theorem changes_apply (r : Row) (d : Desk) (intent : Timeline.Intent) :
    d.Changes Part.working (r.apply d intent).1 := by
  cases intent with
  | preview direction days day => exact (changes_preview r d direction days day).mono (by decide)
  | commit => exact changes_deactivate r d false
  | cancel => exact changes_deactivate r d true

theorem changes_foldl_apply (intents : List Timeline.Intent) (step : RowStep) :
    step.1.Changes Part.working (intents.foldl (fun (d, r, _) intent => apply r d intent) step).1 := by
  induction intents generalizing step with
  | nil => exact .refl _ step.1
  | cons intent rest ih => exact (changes_apply step.2.1 step.1 intent).trans (ih _)

theorem changes_applyAll (r : Row) (d : Desk) (intents : List Timeline.Intent) :
    d.Changes Part.working (r.applyAll d intents).1 := changes_foldl_apply intents (d, r, none)

theorem changes_pressCell (r : Row) (d : Desk) (direction : Timeline.Direction) (cell : Timeline.Cell) :
    d.Changes Part.working (r.pressCell d direction cell).1 := by
  unfold pressCell
  dsimp only
  split
  · exact changes_applyAll ..
  · exact ((Desk.changes_changeFor ..).mono (by decide)).trans (changes_applyAll ..)

end Row

namespace Grouping

theorem changes_write (d : Desk) (x : Snapshot) (name : String) (value : AttrValue) :
    d.Changes [.drafts, .filed, .edits, .pushes]
      ((d.changeFor x none).1.setValue (d.changeFor x none).2 name value) :=
  (d.changes_changeFor x none).append (Desk.changes_setValue ..)

theorem changes_drop (g : Grouping) (d : Desk) (x : Snapshot) (identifier : String) :
    d.Changes Part.working (g.drop d x identifier).1 := by
  unfold drop
  split
  · exact .refl _ d
  · rename_i name _
    have hwrite : d.Changes Part.working
        ((d.changeFor x none).1.setValue (d.changeFor x none).2 name (g.valueFor identifier)) :=
      (changes_write d x name _).mono (by decide)
    have hsave := hwrite.trans ((Desk.changes_save _ (d.changeFor x none).2).mono (by decide))
    dsimp only
    rcases hs : Desk.save _ (d.changeFor x none).2 with ⟨after, error | commit⟩ <;> rw [hs] at hsave
    · exact hsave.trans ((Desk.Change.notify _).changes.mono (by decide))
    · exact hsave

end Grouping

end Draftboard
