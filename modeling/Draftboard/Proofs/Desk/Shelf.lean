import Draftboard.Proofs.Server.Calm
import Draftboard.Proofs.Desk.Chores
import Draftboard.Proofs.Desk.Commits
/-!
# Saves apart from time

When no request fails, what a save does can be told from the change-set, its schema and the stored
record. The time at which work packages have changed last is left out, so that nothing depends on when
the save is made.
-/

namespace Draftboard

/-! ## Snapshots apart from time -/

def Snapshot.untimed (s : Snapshot) : Snapshot := { s with updatedAt := none }

def Snapshot.raise (s : Snapshot) : Snapshot := { s with lockVersion := nextCount s.lockVersion }

def Commit.untimed (c : Commit) : Commit := { c with workPackage := c.workPackage.untimed }

/-! ## The shelf -/

/-- What is stored and what is cached of each work package. -/
@[ext]
structure Shelf where
  stored : PackageId → Option Snapshot
  cached : PackageId → Option Snapshot

def Desk.shelf (d : Desk) : Shelf where
  stored id := (d.server.stored? id).map (·.untimed)
  cached id := (d.cache.get? id).map (·.untimed)

namespace Shelf

def storedAfter (s : Shelf) (saved : Snapshot) (id : PackageId) : Option Snapshot :=
  if saved.id = id then some saved
  else if saved.parentId? = some id then (s.stored id).map (·.raise)
  else s.stored id

/-- A saved record is stored and cached, and its parent is touched. The parent may be fetched again. -/
def keep (s : Shelf) (refreshes : Bool) (saved : Snapshot) : Shelf where
  stored := s.storedAfter saved
  cached id :=
    if refreshes = true ∧ saved.parentId? = some id then s.storedAfter saved id
    else if saved.id = id then some saved
    else s.cached id

end Shelf

/-! ## Verdicts -/

/-- What a save comes to, given the schema and the stored record: the record that is stored then. -/
def Changeset.verdict (c : Changeset) (schema? : Option Schema) (stored? : Option Snapshot) :
    Except EditError Snapshot :=
  if c.inFlight then .error (.saveInFlight c.id)
  else match schema? with
    | none => .error (.api (.notFound .schema c.pristine.typeHref))
    | some schema => match c.buildPayload schema with
      | .error errors => .error (.validation errors)
      | .ok payload => match stored? with
        | none => .error (.api (.notFound .workPackage c.id.text))
        | some current =>
          if current.lockVersion ≠ payload.lockVersion then
            .error (.api (.conflict c.id payload.lockVersion current.lockVersion))
          else .ok (current.applyPayload payload).raise

theorem Changeset.exists_of_verdict {c : Changeset} {schema? : Option Schema}
    {stored? : Option Snapshot} {saved : Snapshot} (verdict : c.verdict schema? stored? = .ok saved) :
    ∃ current payload, stored? = some current ∧ saved = (current.applyPayload payload).raise := by
  unfold Changeset.verdict at verdict
  split at verdict
  · cases verdict
  rcases schema? with - | schema
  · cases verdict
  rcases hbuilt : c.buildPayload schema with errors | payload <;> simp only [hbuilt] at verdict
  · cases verdict
  rcases stored? with - | current
  · cases verdict
  dsimp only at verdict
  split at verdict
  · cases verdict
  · cases verdict
    exact ⟨current, payload, rfl, rfl⟩

/-- A snapshot that goes by the stored version has no attribute that the stored record lacks. -/
def Changeset.Lists (c : Changeset) (stored? : Option Snapshot) : Prop :=
  ∀ current, stored? = some current → current.lockVersion = c.pristine.lockVersion →
    ∀ name, name ∈ c.pristine.attributes → name ∈ current.attributes

namespace Hook

/-- The hooks that settings can turn on. -/
def IsStandard : Hook → Prop
  | invalidateActivity | refreshParent | publishEvents => True
  | probe .. | custom .. => False

def refreshes : Hook → Bool
  | refreshParent => true
  | invalidateActivity | publishEvents | probe .. | custom .. => false

def invalidates : Hook → Bool
  | invalidateActivity => true
  | refreshParent | publishEvents | probe .. | custom .. => false

end Hook

namespace Desk

def schemaAtHand? (d : Desk) (typeHref : String) : Option Schema :=
  d.schemas[typeHref]?.or d.server.schemas[typeHref]?

def verdict (d : Desk) (h : Handle) : Except EditError Snapshot :=
  (d.changeset h).verdict (d.schemaAtHand? (d.changeset h).pristine.typeHref)
    (d.shelf.stored (d.changeset h).id)

/-- A desk on which no request fails, and with no hooks but the standard ones. -/
structure Calm (d : Desk) : Prop where
  reached : d.server.Reachable
  server : d.server.Calm
  hooks : ∀ hook ∈ d.hooks, hook.IsStandard

/-! ## Hooks -/

section Hooks

variable {d : Desk}

theorem get?_refetched (calm : d.server.Calm) (wellFormed : d.server.WellFormed) (parent id : PackageId) :
    ((d.dropPackage parent).refetch parent).1.cache.get? id =
      if parent = id then d.server.packages[id]? else d.cache.get? id := by
  have hfetch := calm.fetch_eq parent
  rw [← server_dropPackage d parent] at hfetch
  have hdropped := PackageCache.get?_invalidate d.cache parent id
  cases hp : (d.dropPackage parent).server.packages[parent]? with
  | none =>
    rw [server_dropPackage] at hp
    rw [server_dropPackage, hp] at hfetch
    rw [refetch_missing (by rw [server_dropPackage]; exact hfetch)]
    dsimp only
    rw [cache_dropPackage, hdropped]
    split
    · rename_i heq
      rw [← heq, hp]
    · rfl
  | some fresh =>
    rw [server_dropPackage] at hp
    rw [server_dropPackage, hp] at hfetch
    rw [refetch_fetched (by rw [server_dropPackage]; exact hfetch), cache_putPackage,
      PackageCache.get?_put, wellFormed.id_eq hp]
    dsimp only
    rw [cache_dropPackage, hdropped]
    split
    · rename_i heq
      rw [← heq, hp]
    · rfl

theorem refetched_eq (d : Desk) (parent : PackageId) :
    ∃ cache server more, ((d.dropPackage parent).refetch parent).1 =
      { d with cache, server, deliveries := d.deliveries ++ more } := by
  obtain ⟨more, hdrop⟩ := exists_dropPackage d parent
  rcases hf : (d.dropPackage parent).server.fetch parent with ⟨error | fresh, after⟩
  · exact ⟨_, after, more, by rw [refetch_missing hf, hdrop]⟩
  · obtain ⟨later, hput⟩ := exists_putPackage ({ d.dropPackage parent with server := after } : Desk) fresh
    exact ⟨_, after, more ++ later, by rw [refetch_fetched hf, hput, hdrop, List.append_assoc]⟩

theorem cache_runHook (calm : d.server.Calm) (wellFormed : d.server.WellFormed) (commit : Commit)
    {hook : Hook} (standard : hook.IsStandard) (id : PackageId) :
    (d.runHook commit hook).1.cache.get? id =
      if hook.refreshes = true ∧ commit.workPackage.parentId? = some id then d.server.packages[id]?
      else d.cache.get? id := by
  cases hook with
  | invalidateActivity => rfl
  | publishEvents =>
    unfold runHook publishEvents
    dsimp only
    split <;> rfl
  | probe | custom => cases standard
  | refreshParent =>
    cases hp : commit.workPackage.parentId? with
    | none => simp [runHook, hp]
    | some parent =>
      simp only [runHook, hp, get?_refetched calm wellFormed, Hook.refreshes, Option.some.injEq, true_and]

theorem runHook_keeps (d : Desk) (commit : Commit) {hook : Hook} (standard : hook.IsStandard) :
    (d.runHook commit hook).1.schemas = d.schemas ∧ (d.runHook commit hook).1.activity =
      if hook.invalidates then d.activity.erase commit.id else d.activity := by
  cases hook with
  | invalidateActivity => exact ⟨rfl, rfl⟩
  | publishEvents =>
    unfold runHook publishEvents
    dsimp only
    split <;> exact ⟨rfl, rfl⟩
  | probe | custom => cases standard
  | refreshParent =>
    cases hp : commit.workPackage.parentId? with
    | none => simp [runHook, hp, Hook.invalidates]
    | some parent =>
      obtain ⟨cache, server, more, heq⟩ := refetched_eq d parent
      simp [runHook, hp, heq, Hook.invalidates]

theorem cache_runHooks (calm : d.server.Calm) (wellFormed : d.server.WellFormed) (commit : Commit)
    {hooks : List Hook} (standard : ∀ hook ∈ hooks, hook.IsStandard) (id : PackageId) :
    (d.runHooks commit hooks).cache.get? id =
      if hooks.any Hook.refreshes = true ∧ commit.workPackage.parentId? = some id then
        d.server.packages[id]?
      else d.cache.get? id := by
  unfold runHooks
  induction hooks generalizing d with
  | nil => simp
  | cons hook rest ih =>
    obtain ⟨calls, hcalls, hfetch⟩ := exists_server_runHook d commit hook
    have hsame := Server.sameStore_run_fetch d.server hfetch
    rw [← hcalls] at hsame
    -- A hook does no more than fetch, so the next one finds what this one has found.
    have hlater := ih (hcalls ▸ calm.run_fetch hfetch) (wellFormed.congr hsame.packages)
      fun later hmem => standard later (List.mem_cons_of_mem _ hmem)
    rw [List.foldl_cons, hlater, hsame.packages,
      cache_runHook calm wellFormed commit (standard hook List.mem_cons_self), List.any_cons]
    by_cases hparent : commit.workPackage.parentId? = some id
    · cases hook.refreshes <;> cases rest.any Hook.refreshes <;> simp [hparent]
    · simp [hparent]

theorem runHooks_keeps (d : Desk) (commit : Commit) {hooks : List Hook}
    (standard : ∀ hook ∈ hooks, hook.IsStandard) :
    (d.runHooks commit hooks).schemas = d.schemas ∧ (d.runHooks commit hooks).activity =
      if hooks.any Hook.invalidates then d.activity.erase commit.id else d.activity := by
  unfold runHooks
  induction hooks generalizing d with
  | nil => exact ⟨rfl, rfl⟩
  | cons hook rest ih =>
    obtain ⟨hschemas, hactivity⟩ := runHook_keeps d commit (standard hook List.mem_cons_self)
    obtain ⟨hlater, herased⟩ := ih (d.runHook commit hook).1
      fun later hmem => standard later (List.mem_cons_of_mem _ hmem)
    have htwice : (d.activity.erase commit.id).erase commit.id = d.activity.erase commit.id := by
      refine Std.ExtTreeMap.ext_getElem? fun id => ?_
      simp only [Std.ExtTreeMap.getElem?_erase]
      split <;> rfl
    refine ⟨hlater.trans hschemas, ?_⟩
    rw [List.foldl_cons, herased, hactivity, List.any_cons]
    cases hook.invalidates <;> cases rest.any Hook.invalidates <;> simp [htwice]

end Hooks

/-! ## Schemas -/

section Asked

variable {d ready : Desk} {h : Handle} {typeHref : String} {answer : Except ApiError Schema}

theorem ensureSchema_of_calm (calm : d.Calm) (typeHref : String) :
    (d.ensureSchema typeHref).2 = (match d.schemaAtHand? typeHref with
      | some schema => .ok schema
      | none => .error (.notFound .schema typeHref)) ∧
    ∀ other, (d.ensureSchema typeHref).1.schemas[other]? =
      if typeHref = other then d.schemaAtHand? typeHref else d.schemas[other]? := by
  unfold ensureSchema schemaAtHand?
  cases hcached : d.schemas[typeHref]? with
  | some schema =>
    refine ⟨rfl, fun other => ?_⟩
    dsimp only
    split
    · rename_i heq
      rw [← heq, hcached]
      rfl
    · rfl
  | none =>
    have hfetch := calm.server.fetchSchema_eq typeHref
    unfold fetchSchema request
    dsimp only
    rw [hfetch]
    cases hstored : d.server.schemas[typeHref]? with
    | none =>
      refine ⟨rfl, fun other => ?_⟩
      dsimp only
      split
      · rename_i heq
        rw [← heq, hcached]
        rfl
      · rfl
    | some schema =>
      refine ⟨rfl, fun other => ?_⟩
      -- The schema is cached under the type that it names, which is the type that was asked for.
      simp only [Std.ExtTreeMap.getElem?_insert, Std.LawfulEqOrd.compare_eq_iff_eq,
        calm.reached.typeHref_eq hstored]
      rfl

structure Asked (d ready : Desk) (h : Handle) (typeHref : String) : Prop where
  eq : ∃ server schemas, ready = { d.setInFlight h true with server, schemas }
  sameStore : d.server.SameStore ready.server
  calm : ready.server.Calm
  schemas : ∀ other, ready.schemas[other]? =
    if typeHref = other then d.schemaAtHand? typeHref else d.schemas[other]?

theorem asked_of_calm (calm : d.Calm)
    (asked : (d.setInFlight h true).ensureSchema typeHref = (ready, answer)) :
    d.Asked ready h typeHref ∧ answer = (match d.schemaAtHand? typeHref with
      | some schema => .ok schema
      | none => .error (.notFound .schema typeHref)) := by
  have hraised : (d.setInFlight h true).Calm := ⟨calm.reached, calm.server, calm.hooks⟩
  obtain ⟨hanswer, hschemas⟩ := ensureSchema_of_calm hraised typeHref
  obtain ⟨server, schemas, hready, -⟩ := exists_ready asked
  have hserver := server_of_asked asked
  rw [asked] at hanswer hschemas
  refine ⟨⟨⟨server, schemas, hready⟩, ?_, ?_, hschemas⟩, hanswer⟩
  · rcases hserver with h | h <;> rw [h]
    · exact .refl _
    · exact Server.sameStore_fetchSchema ..
  · rcases hserver with h | h <;> rw [h]
    · exact calm.server
    · rw [Server.perform, calm.server.fetchSchema_eq]
      exact calm.server.of_failures_eq (calm.server.failures_begin .schema)

theorem Asked.answered_keeps (asked : d.Asked ready h typeHref) (server : Server) :
    (ready.answered server).cache = d.cache ∧ (ready.answered server).activity = d.activity ∧
      (ready.answered server).registry = d.registry ∧
      ((ready.answered server).changeset h).id = (d.changeset h).id := by
  obtain ⟨inFlight, hraised⟩ := exists_changeset_setInFlight d h true
  obtain ⟨server', schemas', rfl⟩ := asked.eq
  refine ⟨rfl, rfl, rfl, ?_⟩
  show ((d.setInFlight h true).changeset h).id = (d.changeset h).id
  rw [hraised]
  rfl

theorem Asked.schemas_of_free (asked : d.Asked ready h typeHref) {c : Changeset}
    (free : c.inFlight = false) (mine : c.pristine.typeHref = typeHref) (other : String) :
    ready.schemas[other]? =
      if c.inFlight = false ∧ c.pristine.typeHref = other then d.schemaAtHand? other
      else d.schemas[other]? := by
  rw [asked.schemas, mine, free]
  by_cases heq : typeHref = other
  · rw [if_pos heq, if_pos ⟨rfl, heq⟩, heq]
  · rw [if_neg heq, if_neg fun h => heq h.2]

theorem schemaAtHand_of_answer {schema : Schema}
    (found : Except.ok schema = (match d.schemaAtHand? typeHref with
      | some schema => .ok schema
      | none => .error (ApiError.notFound .schema typeHref))) :
    d.schemaAtHand? typeHref = some schema := by
  cases hs : d.schemaAtHand? typeHref with
  | none => rw [hs] at found; cases found
  | some other => rw [hs] at found; cases found; rfl

end Asked

/-! ## Saves -/

/-- What a save does alike whether it succeeds or fails: the schema is cached from then on. -/
structure Upkeep (d : Desk) (h : Handle) (after : Desk) : Prop where
  schemas : ∀ other, after.schemas[other]? =
    if (d.changeset h).inFlight = false ∧ (d.changeset h).pristine.typeHref = other then
      d.schemaAtHand? other
    else d.schemas[other]?
  others : ∀ k, h ≠ k → after.changeset k = d.changeset k
  hooks : after.hooks = d.hooks
  serverSchemas : after.server.schemas = d.server.schemas
  attachments : after.server.attachments = d.server.attachments
  lastId : after.server.lastId = d.server.lastId
  calm : after.server.Calm

/-- All that a save does to a desk, apart from time. -/
structure Comes (d : Desk) (h : Handle) (after : Desk) (result : Except EditError Commit) : Prop
    extends Upkeep d h after where
  result : result.map Commit.untimed = (d.verdict h).map (d.changeset h).commit
  shelf : after.shelf = match d.verdict h with
    | .ok saved => d.shelf.keep (d.hooks.any Hook.refreshes) saved
    | .error _ => d.shelf
  activity : after.activity = match d.verdict h with
    | .ok saved => if d.hooks.any Hook.invalidates then d.activity.erase saved.id else d.activity
    | .error _ => d.activity
  registry : after.registry = match d.verdict h with
    | .ok _ => if d.registered? (d.changeset h).id = some h then d.registry.erase (d.changeset h).id
      else d.registry
    | .error _ => d.registry

variable {d after : Desk} {h : Handle}

theorem comes_of_failed {error : EditError} (failed : d.save h = (after, .error error))
    (verdict : d.verdict h = .error error) (calm : after.server.Calm)
    (schemas : ∀ other, after.schemas[other]? =
      if (d.changeset h).inFlight = false ∧ (d.changeset h).pristine.typeHref = other then
        d.schemaAtHand? other
      else d.schemas[other]?) : d.Comes h after (.error error) := by
  have huntouched := untouched_save failed
  have hsame := huntouched.server.sameStore
  have hhooks := (changes_save d h).keepsHouse.hooks
  rw [failed] at hhooks
  have hshelf : after.shelf = d.shelf := by
    unfold shelf Server.stored?
    rw [hsame.packages, huntouched.cache]
  exact
    { result := by rw [verdict]; rfl
      shelf := by rw [verdict]; exact hshelf
      activity := by rw [verdict]; exact huntouched.activity
      registry := by rw [verdict]; exact huntouched.registry
      schemas
      others := fun k _ => huntouched.changeset k
      hooks := hhooks
      serverSchemas := hsame.schemas
      attachments := hsame.attachments
      lastId := hsame.lastId
      calm }

theorem verdict_of_built (free : (d.changeset h).inFlight = false)
    (persisted : (d.changeset h).pristine.isNew = false) {schema : Schema} {payload : Payload}
    (found : d.schemaAtHand? (d.changeset h).pristine.typeHref = some schema)
    (built : (d.changeset h).buildPayload schema = .ok payload) (now : Instant) :
    d.verdict h = match d.server.savedRecord now (d.changeset h).pristine payload with
      | .error error => .error (.api error)
      | .ok saved => .ok saved.untimed := by
  have hstored : d.shelf.stored (d.changeset h).id =
      (d.server.packages[(d.changeset h).pristine.id]?).map (·.untimed) := rfl
  unfold verdict Changeset.verdict
  rw [free, found, Server.savedRecord_of_persisted persisted, if_neg Bool.false_ne_true]
  dsimp only
  rw [built, hstored]
  cases d.server.packages[(d.changeset h).pristine.id]? with
  | none => rfl
  | some current =>
    dsimp only [Option.map_some]
    by_cases hversion : current.lockVersion = payload.lockVersion
    · have huntimed : current.untimed.lockVersion = payload.lockVersion := hversion
      simp only [hversion, huntimed, ne_eq, not_true_eq_false, if_false]
      rfl
    · have huntimed : current.untimed.lockVersion ≠ payload.lockVersion := hversion
      rw [if_pos hversion, if_pos huntimed]
      rfl

theorem savedRecord_of_sameStore {s s' : Server} (same : s.SameStore s') (now : Instant)
    (pristine : Snapshot) (payload : Payload) :
    s'.savedRecord now pristine payload = s.savedRecord now pristine payload := by
  unfold Server.savedRecord
  rw [same.packages, same.lastId]

section Saved

variable {ready : Desk} {payload : Payload} {saved : Snapshot} {server : Server}

theorem settle_eq (d : Desk) (h : Handle) (commit : Commit) :
    (d.settle h commit).schemas = d.schemas ∧ (d.settle h commit).activity = d.activity ∧
      (d.settle h commit).registry =
        if d.registered? (d.changeset h).id = some h then d.registry.erase (d.changeset h).id
        else d.registry := by
  have hpublish := bystands_published d commit
  have hid : ((((d.putPackage commit.workPackage).publishCommit commit).setInFlight h false).changeset h).id =
      (d.changeset h).id := by
    rw [changeset_lowered, hpublish.changeset]
    rfl
  have hregistered : (((d.putPackage commit.workPackage).publishCommit commit).setInFlight h
      false).registry = d.registry := hpublish.registry
  obtain ⟨registry, more, hreset⟩ :=
    exists_reset (((d.putPackage commit.workPackage).publishCommit commit).setInFlight h false) h
  obtain ⟨later, hput⟩ := exists_putPackage d commit.workPackage
  refine ⟨?_, ?_, ?_⟩
  · rw [settle, hreset, hput]
    rfl
  · rw [settle, hreset, hput]
    rfl
  · rw [settle, registry_reset, hid]
    unfold registered?
    rw [hregistered]

/-- A record that goes by the snapshot has all its attributes, so nothing is retained from it. -/
theorem retainFrom_of_lists (persisted : (d.changeset h).pristine.isNew = false)
    (lists : (d.changeset h).Lists (d.shelf.stored (d.changeset h).id)) {schema : Schema} {now : Instant}
    (built : (d.changeset h).buildPayload schema = .ok payload)
    (record : d.server.savedRecord now (d.changeset h).pristine payload = .ok saved) :
    saved.retainFrom (d.changeset h).pristine = saved := by
  refine Snapshot.retainFrom_eq_self fun name hname => ?_
  obtain ⟨current, hcurrent, hversion, rfl⟩ := Server.saved_of_stored persisted record
  rw [Changeset.lockVersion_of_buildPayload built] at hversion
  have hstored : d.shelf.stored (d.changeset h).id = some current.untimed := by
    show (d.server.packages[(d.changeset h).pristine.id]?).map _ = _
    rw [hcurrent]
    rfl
  exact Snapshot.mem_applyPayload payload (lists current.untimed hstored hversion name hname)

theorem stored_of_update {s : Server} (same : d.server.SameStore s) {now : Instant} {pristine : Snapshot}
    (sent : s.update now pristine payload = (.ok saved, server)) (id : PackageId) :
    (server.packages[id]?).map (·.untimed) = d.shelf.storedAfter saved.untimed id := by
  rw [Server.packages_of_update_eq_ok sent, same.packages]
  show _ = if saved.id = id then some saved.untimed
    else if saved.parentId? = some id then (d.shelf.stored id).map (·.raise) else d.shelf.stored id
  split
  · rfl
  · split
    · show _ = ((d.server.packages[id]?).map (·.untimed)).map (·.raise)
      rw [Option.map_map, Option.map_map]
      rfl
    · rfl

theorem cached_of_runHooks {settled : Desk} (calm : settled.server.Calm)
    (wellFormed : settled.server.WellFormed) {commit : Commit}
    (put : settled.cache = (d.cache.put commit.workPackage).1)
    (stored : ∀ id, (settled.server.packages[id]?).map (·.untimed) =
      d.shelf.storedAfter commit.workPackage.untimed id)
    {hooks : List Hook} (standard : ∀ hook ∈ hooks, hook.IsStandard) (id : PackageId) :
    ((settled.runHooks commit hooks).cache.get? id).map (·.untimed) =
      (d.shelf.keep (hooks.any Hook.refreshes) commit.workPackage.untimed).cached id := by
  have hput := PackageCache.get?_put d.cache commit.workPackage id
  rw [cache_runHooks calm wellFormed commit standard, put, hput]
  show _ = if hooks.any Hook.refreshes = true ∧ commit.workPackage.parentId? = some id then
      d.shelf.storedAfter commit.workPackage.untimed id
    else if commit.workPackage.id = id then some commit.workPackage.untimed else d.shelf.cached id
  rw [← stored]
  split
  · rfl
  · split <;> rfl

theorem upkeep_settle (asked : d.Asked ready h (d.changeset h).pristine.typeHref)
    (free : (d.changeset h).inFlight = false) (persisted : (d.changeset h).pristine.isNew = false)
    (wellFormed : ready.server.WellFormed) {now : Instant}
    (sent : ready.server.update now (d.changeset h).pristine payload = (.ok saved, server))
    (commit : Commit) : d.Upkeep h ((ready.answered server).settle h commit) := by
  obtain ⟨hschemas, -, -⟩ := settle_eq (ready.answered server) h commit
  have hhooks := (changes_settle (ready.answered server) h commit).keepsHouse.hooks
  have hserver : ((ready.answered server).settle h commit).server = server := server_settle ..
  refine
    { schemas := fun other => ?_
      others := fun k hne => ?_
      hooks := hhooks.trans ?_
      serverSchemas := ?_
      attachments := ?_
      lastId := ?_
      calm := (asked.calm.after_update sent).of_failures_eq (by rw [hserver]) }
  · rw [hschemas]
    exact asked.schemas_of_free free rfl other
  · rw [changeset_settle_of_ne _ h commit hne]
    obtain ⟨server', schemas', rfl⟩ := asked.eq
    exact changeset_modifyQuietly_of_ne d (fun c => { c with inFlight := true }) hne
  · obtain ⟨server', schemas', rfl⟩ := asked.eq
    rfl
  · rw [hserver, Server.schemas_of_update sent]
    exact asked.sameStore.schemas
  · rw [hserver, (Server.stores_of_update wellFormed sent).attachments]
    exact asked.sameStore.attachments
  · rw [hserver, Server.lastId_of_update_eq_ok sent, persisted, if_neg Bool.false_ne_true]
    exact asked.sameStore.lastId

theorem Upkeep.runHooks {settled : Desk} (upkeep : d.Upkeep h settled) (commit : Commit)
    {hooks : List Hook} (standard : ∀ hook ∈ hooks, hook.IsStandard) :
    d.Upkeep h (settled.runHooks commit hooks) := by
  obtain ⟨hschemas, -⟩ := runHooks_keeps settled commit standard
  have hbystands := (changes_runHooks settled commit hooks).bystands (by decide)
  obtain ⟨calls, hcalls, hfetch⟩ := exists_server_runHooks settled commit hooks
  have hsame := Server.sameStore_run_fetch settled.server hfetch
  rw [← hcalls] at hsame
  exact
    { schemas := by rw [hschemas]; exact upkeep.schemas
      others := fun k hne => (hbystands.changeset k).trans (upkeep.others k hne)
      hooks := hbystands.hooks.trans upkeep.hooks
      serverSchemas := hsame.schemas.trans upkeep.serverSchemas
      attachments := hsame.attachments.trans upkeep.attachments
      lastId := hsame.lastId.trans upkeep.lastId
      calm := hcalls ▸ upkeep.calm.run_fetch hfetch }

theorem comes_of_saved (calm : d.Calm) (persisted : (d.changeset h).pristine.isNew = false)
    (lists : (d.changeset h).Lists (d.shelf.stored (d.changeset h).id)) {schema : Schema}
    (free : (d.changeset h).inFlight = false)
    (asked : d.Asked ready h (d.changeset h).pristine.typeHref)
    (found : d.schemaAtHand? (d.changeset h).pristine.typeHref = some schema)
    (built : (d.changeset h).buildPayload schema = .ok payload)
    (sent : ready.server.update ready.clock.now (d.changeset h).pristine payload = (.ok saved, server)) :
    d.Comes h (((ready.answered server).settle h ((d.changeset h).commit saved)).runHooks
      ((d.changeset h).commit saved) d.hooks) (.ok ((d.changeset h).commit saved)) := by
  obtain ⟨-, hrecord, -⟩ := Server.update_eq_ok sent
  rw [savedRecord_of_sameStore asked.sameStore] at hrecord
  have hverdict := verdict_of_built free persisted found built ready.clock.now
  rw [hrecord] at hverdict
  dsimp only at hverdict
  have hmine : ((d.changeset h).commit saved).workPackage = saved :=
    retainFrom_of_lists persisted lists built hrecord
  have hready := calm.reached.wellFormed.congr asked.sameStore.packages
  have hstored := stored_of_update asked.sameStore sent
  have hupkeep := upkeep_settle asked free persisted hready sent ((d.changeset h).commit saved)
  obtain ⟨-, hlogs, hregistry⟩ := settle_eq (ready.answered server) h ((d.changeset h).commit saved)
  have hserver : ((ready.answered server).settle h ((d.changeset h).commit saved)).server = server :=
    server_settle ..
  have hput := cache_settle (ready.answered server) h ((d.changeset h).commit saved)
  have hwellFormed := Server.wellFormed_of_update_eq_ok hready sent
  rw [← hserver] at hwellFormed
  obtain ⟨hcache, hactivity, hregistered, hid⟩ := asked.answered_keeps server
  rw [hactivity] at hlogs
  rw [hcache] at hput
  -- What follows is about the hooks only, which run on a settled desk whatever has led to it.
  generalize (ready.answered server).settle h ((d.changeset h).commit saved) = settled at *
  have hcached := cached_of_runHooks hupkeep.calm hwellFormed hput
    (fun id => by rw [hserver, hmine]; exact hstored id) calm.hooks
  obtain ⟨-, herased⟩ := runHooks_keeps settled ((d.changeset h).commit saved) calm.hooks
  have hbystands := (changes_runHooks settled ((d.changeset h).commit saved) d.hooks).bystands (by decide)
  have hpackages := packages_runHooks settled ((d.changeset h).commit saved) d.hooks
  refine
    { toUpkeep := hupkeep.runHooks _ calm.hooks
      result := by rw [hverdict]; rfl
      shelf := ?_
      activity := ?_
      registry := ?_ }
  · rw [hverdict]
    refine Shelf.ext (funext fun id => ?_) (funext fun id => ?_)
    · exact (congrArg (fun packages => (packages[id]?).map (·.untimed)) hpackages).trans
        (hserver ▸ hstored id)
    · exact (hcached id).trans (by rw [hmine])
  · rw [hverdict, herased, hlogs]
    rfl
  · rw [hverdict, hbystands.registry, hregistry, hid]
    unfold registered?
    rw [hregistered]

end Saved

/-- With nothing to fail but what the verdict tells, a save does what the verdict tells. -/
theorem comes_save (calm : d.Calm) (persisted : (d.changeset h).pristine.isNew = false)
    (lists : (d.changeset h).Lists (d.shelf.stored (d.changeset h).id)) :
    d.Comes h (d.save h).1 (d.save h).2 := by
  rcases hs : d.save h with ⟨after, result⟩
  dsimp only
  cases ends_of_save hs with
  | busy pending =>
    refine comes_of_failed hs ?_ calm.server fun other => ?_
    · unfold verdict Changeset.verdict
      rw [if_pos pending]
    · rw [if_neg (by simp [pending])]
  | @noSchema ready error free asked =>
    obtain ⟨hasked, hanswer⟩ := asked_of_calm calm asked
    refine comes_of_failed hs ?_ hasked.calm (hasked.schemas_of_free free rfl)
    unfold verdict Changeset.verdict
    rw [free, if_neg Bool.false_ne_true]
    split at hanswer
    · cases hanswer
    · rename_i hnone
      cases hanswer
      rw [hnone]
  | @invalid ready schema errors free asked built =>
    obtain ⟨hasked, hanswer⟩ := asked_of_calm calm asked
    refine comes_of_failed hs ?_ hasked.calm (hasked.schemas_of_free free rfl)
    unfold verdict Changeset.verdict
    rw [free, if_neg Bool.false_ne_true, schemaAtHand_of_answer hanswer]
    dsimp only
    rw [built]
  | @refused ready schema payload error server free asked built sent =>
    obtain ⟨hasked, hanswer⟩ := asked_of_calm calm asked
    have hrecord := hasked.calm.update_eq ready.clock.now (d.changeset h).pristine payload
    rw [sent, savedRecord_of_sameStore hasked.sameStore] at hrecord
    refine comes_of_failed hs ?_ ?_ (hasked.schemas_of_free free rfl)
    · rw [verdict_of_built free persisted (schemaAtHand_of_answer hanswer) built ready.clock.now, ← hrecord]
    · exact Server.update_eq_error sent ▸ hasked.calm.of_failures_eq (hasked.calm.failures_begin .update)
  | @done ready schema payload saved server free asked built sent =>
    obtain ⟨hasked, hanswer⟩ := asked_of_calm calm asked
    exact comes_of_saved calm persisted lists free hasked (schemaAtHand_of_answer hanswer) built sent

end Desk

end Draftboard
