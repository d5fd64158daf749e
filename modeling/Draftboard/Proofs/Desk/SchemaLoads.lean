import Draftboard.Proofs.Desk.Tallies
import Draftboard.Proofs.Desk.InFlight
/-!
# Loading schemas

A caller looks for the schema of a type in the cache, asks the server if it is not there, and puts it
into the cache. Others go on between these steps. Nobody asks for a schema that is cached, but those
who had looked before it was there ask all the same.
-/

namespace Draftboard

/-! ## Callers -/

/-- A call that needs a schema and is no save, with all that it goes on with. -/
inductive Errand where
  | load (typeHref : String)
  | edit (snapshot : Snapshot)

def Errand.typeHref : Errand → String
  | load typeHref => typeHref
  | edit snapshot => snapshot.typeHref

/-- A call between two of its steps. -/
inductive Caller where
  | fetches (id : PackageId)
  | seeks (errand : Errand) (stage : SchemaStage)
  | saves (job : SaveJob)
  | loaded (typeHref : String) (result : Except ApiError Schema)
  | edits (result : Except ApiError Handle)

/-- The type that a save wants the schema of, and how far it has come with it. -/
def SaveJob.seeking? (job : SaveJob) : Option (String × SchemaStage) :=
  match job.stage with
  | .schema pristine stage => some (pristine.typeHref, stage)
  | _ => none

def SaveJob.reach (job : SaveJob) (next : SchemaStage) : SaveJob :=
  match job.stage with
  | .schema pristine _ => { job with stage := .schema pristine next }
  | _ => job

namespace Caller

def seeking? : Caller → Option (String × SchemaStage)
  | seeks errand stage => some (errand.typeHref, stage)
  | saves job => job.seeking?
  | _ => none

def reach (c : Caller) (next : SchemaStage) : Caller :=
  match c with
  | seeks errand _ => seeks errand next
  | saves job => saves (job.reach next)
  | c => c

end Caller

namespace Desk

def refuseCall (error : ApiError) : Errand → Caller
  | .load typeHref => .loaded typeHref (.error error)
  | .edit _ => .edits (.error error)

def goOnCall (d : Desk) (schema : Schema) : Errand → Desk × Caller
  | .load typeHref => (d, .loaded typeHref (.ok schema))
  | .edit snapshot =>
    let (d, h) := d.changeFor snapshot none
    (d, .edits (.ok h))

def stepCall (d : Desk) : Caller → Desk × Caller
  | .fetches id =>
    match d.load id with
    | (d, .ok snapshot) => (d, .seeks (.edit snapshot) .looks)
    | (d, .error error) => (d, .edits (.error error))
  | .seeks errand (.has schema) => d.goOnCall schema errand
  | .seeks errand stage =>
    match d.stepSchema errand.typeHref stage with
    | (d, .ok next) => (d, .seeks errand next)
    | (d, .error error) => (d, refuseCall error errand)
  | .saves job =>
    let (d, job) := d.advance job
    (d, .saves job)
  | .loaded typeHref result => (d, .loaded typeHref result)
  | .edits result => (d, .edits result)

def stepCalls : Nat → Desk × Caller → Desk × Caller
  | 0, s => s
  | n + 1, s => stepCalls n (s.1.stepCall s.2)

/-! ## Callers that are left alone -/

/-- The steps of one call with nothing in between are what the desk does in one go. -/
theorem exists_stepCalls_looks (d : Desk) (errand : Errand) :
    ∃ n, stepCalls n (d, .seeks errand .looks) =
      match d.ensureSchema errand.typeHref with
      | (d, .ok schema) => d.goOnCall schema errand
      | (d, .error error) => (d, refuseCall error errand) := by
  unfold ensureSchema fetchSchema
  cases hs : d.schemas[errand.typeHref]? with
  | some schema => exact ⟨2, by simp [stepCalls, stepCall, stepSchema, hs]⟩
  | none =>
    rcases hr : d.request (·.fetchSchema errand.typeHref) with ⟨after, error | schema⟩
    · exact ⟨2, by simp [stepCalls, stepCall, stepSchema, hs, hr]⟩
    · exact ⟨4, by simp [stepCalls, stepCall, stepSchema, hs, hr]⟩

theorem exists_stepCalls_load (d : Desk) (typeHref : String) :
    ∃ n, stepCalls n (d, .seeks (.load typeHref) .looks) =
      ((d.ensureSchema typeHref).1, .loaded typeHref (d.ensureSchema typeHref).2) := by
  obtain ⟨n, hn⟩ := exists_stepCalls_looks d (.load typeHref)
  refine ⟨n, hn.trans ?_⟩
  unfold Errand.typeHref
  rcases d.ensureSchema typeHref with ⟨ready, error | schema⟩ <;> rfl

theorem exists_stepCalls_edit (d : Desk) (id : PackageId) :
    ∃ n, stepCalls n (d, .fetches id) = ((d.changeForId id).1, .edits (d.changeForId id).2) := by
  unfold changeForId
  rcases hl : d.load id with ⟨loaded, error | snapshot⟩
  · exact ⟨1, by simp [stepCalls, stepCall, hl]⟩
  · obtain ⟨n, hn⟩ := exists_stepCalls_looks loaded (.edit snapshot)
    refine ⟨n + 1, ?_⟩
    simp only [stepCalls, stepCall, hl, hn, Errand.typeHref]
    rcases loaded.ensureSchema snapshot.typeHref with ⟨ready, error | schema⟩ <;> rfl

theorem stepCalls_saves (n : Nat) (d : Desk) (job : SaveJob) :
    stepCalls n (d, .saves job) = ((advanceAll n d job).1, .saves (advanceAll n d job).2) := by
  induction n generalizing d job with
  | zero => rfl
  | succ n ih => exact ih (d.advance job).1 (d.advance job).2

theorem exists_stepCalls_save (d : Desk) (h : Handle) :
    ∃ n last, stepCalls n ((d.startSave h).1, .saves (d.startSave h).2) = ((d.save h).1, .saves last) ∧
      last.result? = some (d.save h).2 :=
  ⟨(d.startSave h).2.stepsLeft, _, stepCalls_saves .., (Option.some_get _).symm⟩

end Desk

/-! ## What a step can do -/

def SchemaStage.schema? : SchemaStage → Option Schema
  | .inserts schema | .has schema => some schema
  | .looks | .asks => none

namespace Caller

/-- The type that the server is asked about next. -/
def asked? (c : Caller) : Option String :=
  match c.seeking? with
  | some (typeHref, .asks) => some typeHref
  | _ => none

/-- The type of a schema that is on its way to the cache. -/
def unstored? (c : Caller) : Option String :=
  match c.seeking? with
  | some (typeHref, .inserts _) => some typeHref
  | _ => none

def schema? : Caller → Option (String × Schema)
  | loaded typeHref (.ok schema) => some (typeHref, schema)
  | c => c.seeking?.bind fun (typeHref, stage) => stage.schema?.map (typeHref, ·)

theorem seeking?_reach {c : Caller} {typeHref : String} {stage : SchemaStage}
    (seeking : c.seeking? = some (typeHref, stage)) (next : SchemaStage) :
    (c.reach next).seeking? = some (typeHref, next) := by
  cases c with
  | seeks errand =>
    cases seeking
    rfl
  | saves job =>
    obtain ⟨h, hooks, stage⟩ := job
    cases stage with
    | schema =>
      cases seeking
      rfl
    | _ => cases seeking
  | _ => cases seeking

theorem schema?_of_seeking {c : Caller} {typeHref : String} {stage : SchemaStage}
    (seeking : c.seeking? = some (typeHref, stage)) :
    c.schema? = stage.schema?.map (typeHref, ·) := by
  cases c with
  | loaded => cases seeking
  | _ => rw [schema?, seeking, Option.bind_some] <;> simp

structure IsFree (c : Caller) : Prop where
  asked : c.asked? = none
  unstored : c.unstored? = none
  schema : c.schema? = none

theorem isFree_saves {job : SaveJob} (past : job.seeking? = none) : (saves job).IsFree := by
  have hseeking : (saves job).seeking? = none := past
  constructor
  · rw [asked?, hseeking]
  · rw [unstored?, hseeking]
  · rw [schema?, hseeking, Option.bind_none]
    simp

end Caller

namespace Desk

/-- One step of a caller, with what it does to the schemas at hand. -/
inductive StepsTo (d : Desk) (c : Caller) : Desk → Caller → Prop
  | misses {typeHref : String} (seeking : c.seeking? = some (typeHref, .looks))
      (missing : d.schemas[typeHref]? = none) : StepsTo d c d (c.reach .asks)
  | finds {typeHref : String} {schema : Schema} (seeking : c.seeking? = some (typeHref, .looks))
      (cached : d.schemas[typeHref]? = some schema) : StepsTo d c d (c.reach (.has schema))
  | sent {typeHref : String} {schema : Schema} {server : Server}
      (seeking : c.seeking? = some (typeHref, .asks))
      (answer : d.server.fetchSchema typeHref = (.ok schema, server)) :
      StepsTo d c { d with server } (c.reach (.inserts schema))
  | caches {typeHref : String} {schema : Schema} (seeking : c.seeking? = some (typeHref, .inserts schema)) :
      StepsTo d c { d with schemas := d.schemas.insert schema.typeHref schema } (c.reach (.has schema))
  | gives {typeHref : String} {schema : Schema} (seeking : c.seeking? = some (typeHref, .has schema)) :
      StepsTo d c d (.loaded typeHref (.ok schema))
  | rests (idle : c.seeking? = none) : StepsTo d c d c
  /-- The caller is refused, or it goes on with what it wanted the schema for. -/
  | other {after : Desk} {next : Caller} (unstored : c.unstored? = none) (free : next.IsFree)
      (discreet : d.Discreet after) : StepsTo d c after next

theorem seeking?_composeJob (d : Desk) (job : SaveJob) (pristine : Snapshot) (schema : Schema) :
    (d.composeJob job pristine schema).2.seeking? = none := by
  unfold composeJob
  split <;> rfl

theorem seeking?_advance (d : Desk) {job : SaveJob} (past : job.seeking? = none) :
    (d.advance job).2.seeking? = none := by
  obtain ⟨h, hooks, stage⟩ := job
  cases stage with
  | schema => cases past
  | submission pristine payload changes =>
    rcases hs : d.submit h pristine payload changes with ⟨after, error | commit⟩ <;>
      simp [advance, hs, SaveJob.seeking?]
  | followUp commit =>
    cases hooks with
    | nil => rfl
    | cons hook rest =>
      cases hook with
      | refreshParent =>
        cases hp : commit.workPackage.parentId? <;> simp [advance, hp, SaveJob.seeking?]
      | invalidateActivity | publishEvents | probe | custom => rfl
  | refetch | finished => rfl

theorem discreet_advance (d : Desk) {job : SaveJob} (past : job.seeking? = none) :
    d.Discreet (d.advance job).1 := by
  have hchanges := changes_advance d job
  obtain ⟨h, hooks, stage⟩ := job
  cases stage with
  | schema => cases past
  | _ =>
    refine hchanges.discreet ?_ ?_ ?_ <;> simp [SaveStage.parts, Part.hooks]

theorem stepCall_of_asks (d : Desk) {c : Caller} {typeHref : String} {schema : Schema} {server : Server}
    (asks : c.asked? = some typeHref) (answer : d.server.fetchSchema typeHref = (.ok schema, server)) :
    d.stepCall c = ({ d with server }, c.reach (.inserts schema)) := by
  have hseeking : c.seeking? = some (typeHref, .asks) := by
    unfold Caller.asked? at asks
    split at asks
    · rename_i hseeking
      cases asks
      exact hseeking
    · cases asks
  cases c with
  | seeks errand =>
    cases hseeking
    simp only [stepCall, stepSchema, request, answer, Caller.reach]
  | saves job =>
    obtain ⟨h, hooks, stage⟩ := job
    cases stage with
    | schema =>
      cases hseeking
      simp only [stepCall, advance, seekJob, stepSchema, request, answer, Caller.reach, SaveJob.reach]
    | _ => cases hseeking
  | _ => cases hseeking

theorem stepsTo_seeks (d : Desk) (errand : Errand) (stage : SchemaStage) :
    d.StepsTo (.seeks errand stage) (d.stepCall (.seeks errand stage)).1
      (d.stepCall (.seeks errand stage)).2 := by
  cases stage with
  | looks =>
    cases hs : d.schemas[errand.typeHref]? with
    | some schema =>
      simp only [stepCall, stepSchema, hs]
      exact .finds rfl hs
    | none =>
      simp only [stepCall, stepSchema, hs]
      exact .misses rfl hs
  | asks =>
    simp only [stepCall, stepSchema, request]
    rcases hf : d.server.fetchSchema errand.typeHref with ⟨error | schema, server⟩
    · have hcall := discreet_of_call (d := d) (.fetchSchema errand.typeHref)
        (congrArg Prod.snd hf).symm
      refine .other rfl ?_ hcall
      cases errand <;> exact ⟨rfl, rfl, rfl⟩
    · exact .sent rfl hf
  | inserts schema => exact .caches rfl
  | has schema =>
    cases errand with
    | load typeHref => exact .gives rfl
    | edit snapshot =>
      have hdraft := changes_changeFor d snapshot none
      exact .other rfl ⟨rfl, rfl, rfl⟩ (hdraft.discreet (by decide) (by decide) (by decide))

theorem stepsTo_saves (d : Desk) (job : SaveJob) :
    d.StepsTo (.saves job) (d.advance job).1 (.saves (d.advance job).2) := by
  cases hseeking : job.seeking? with
  | none =>
    refine .other ?_ (Caller.isFree_saves (seeking?_advance d hseeking)) (discreet_advance d hseeking)
    rw [Caller.unstored?, Caller.seeking?, hseeking]
  | some =>
    obtain ⟨h, hooks, stage⟩ := job
    cases stage with
    | schema pristine stage =>
      cases stage with
      | looks =>
        cases hs : d.schemas[pristine.typeHref]? with
        | some schema =>
          simp only [advance, seekJob, stepSchema, hs]
          exact .finds rfl hs
        | none =>
          simp only [advance, seekJob, stepSchema, hs]
          exact .misses rfl hs
      | asks =>
        simp only [advance, seekJob, stepSchema, request]
        rcases hf : d.server.fetchSchema pristine.typeHref with ⟨error | schema, server⟩
        · have hcall := discreet_of_call (d := d) (.fetchSchema pristine.typeHref)
            (congrArg Prod.snd hf).symm
          exact .other rfl (Caller.isFree_saves rfl) ⟨rfl, rfl, hcall.stored⟩
        · exact .sent rfl hf
      | inserts schema => exact .caches rfl
      | has schema =>
        refine .other rfl (Caller.isFree_saves (seeking?_composeJob ..)) ?_
        exact (changes_composeJob ..).discreet (by decide) (by decide) (by decide)
    | _ => cases hseeking

theorem stepsTo_stepCall (d : Desk) (c : Caller) : d.StepsTo c (d.stepCall c).1 (d.stepCall c).2 := by
  cases c with
  | fetches id =>
    have hload := (changes_load d id).discreet (by decide) (by decide) (by decide)
    rcases hl : d.load id with ⟨ready, error | snapshot⟩ <;> rw [hl] at hload <;> simp only [stepCall, hl]
    · exact .other rfl ⟨rfl, rfl, rfl⟩ hload
    · exact .other rfl ⟨rfl, rfl, rfl⟩ hload
  | seeks errand stage => exact stepsTo_seeks d errand stage
  | saves job => exact stepsTo_saves d job
  | loaded | edits => exact .rests rfl

/-! ## What others do -/

/-- An action that is no call of those above, and leaves the server to its own moves. -/
def Action.LeavesSchemas : Action → Prop
  | .changeForId _ | .save .. | .elsewhere _ => False
  | _ => True

theorem discreet_act (d : Desk) {action : Action} (leaves : action.LeavesSchemas) :
    d.Discreet (d.act action) := by
  have unsaved : ∀ h hooks, action ≠ .save h hooks := by
    rintro h hooks rfl
    exact leaves
  have hact := changes_act d unsaved
  cases action with
  | changeForId | save | elsewhere => exact leaves.elim
  | _ => refine hact.discreet ?_ ?_ ?_ <;> simp [Action.parts]

end Desk

/-! ## Many callers -/

/-- A desk with its callers in the order they came, and the types whose schemas the server has sent. -/
structure Loads where
  desk : Desk
  callers : List Caller := []
  sent : List String := []

namespace Loads

inductive Move where
  | load (typeHref : String)
  | edit (id : PackageId)
  | save (h : Handle)
  | step (n : Nat)
  | act (action : Desk.Action) (leaves : action.LeavesSchemas)
  /-- Others use the server, or a failure is queued. -/
  | call (call : Server.Call)

def sentAt (c next : Caller) : List String :=
  match c.asked?, next.unstored? with
  | some typeHref, some _ => [typeHref]
  | _, _ => []

def move (s : Loads) : Move → Loads
  | .load typeHref => { s with callers := s.callers ++ [.seeks (.load typeHref) .looks] }
  | .edit id => { s with callers := s.callers ++ [.fetches id] }
  | .save h =>
    let (desk, job) := s.desk.startSave h
    { s with desk, callers := s.callers ++ [.saves job] }
  | .step n =>
    match s.callers[n]? with
    | none => s
    | some caller =>
      let (desk, next) := s.desk.stepCall caller
      { desk, callers := s.callers.set n next, sent := s.sent ++ sentAt caller next }
  | .act action _ => { s with desk := s.desk.act action }
  | .call call => { s with desk := { s.desk with server := s.desk.server.perform call } }

def run (d : Desk) (moves : List Move) : Loads := moves.foldl move { desk := d }

theorem run_append (d : Desk) (first rest : List Move) :
    run d (first ++ rest) = rest.foldl move (run d first) := List.foldl_append

inductive MovesTo (s : Loads) : Loads → Prop
  | comes {desk : Desk} {c : Caller} (free : c.IsFree) (discreet : s.desk.Discreet desk) :
      MovesTo s { s with desk, callers := s.callers ++ [c] }
  | aside {desk : Desk} (discreet : s.desk.Discreet desk) : MovesTo s { s with desk }
  | steps {n : Nat} {c next : Caller} {desk : Desk} (caller : s.callers[n]? = some c)
      (stepsTo : s.desk.StepsTo c desk next) :
      MovesTo s { desk, callers := s.callers.set n next, sent := s.sent ++ sentAt c next }

theorem movesTo_move (s : Loads) (move : Move) : s.MovesTo (s.move move) := by
  cases move with
  | load typeHref => exact .comes ⟨rfl, rfl, rfl⟩ (.refl s.desk)
  | edit id => exact .comes ⟨rfl, rfl, rfl⟩ (.refl s.desk)
  | save h =>
    refine .comes ?_ ((s.desk.changes_startSave h).discreet (by decide) (by decide) (by decide))
    split <;> exact ⟨rfl, rfl, rfl⟩
  | step n =>
    unfold Loads.move
    dsimp only
    split
    · exact .aside (.refl s.desk)
    · rename_i c hc
      exact .steps hc (s.desk.stepsTo_stepCall c)
  | act action leaves => exact .aside (s.desk.discreet_act leaves)
  | call call => exact .aside (Desk.discreet_of_call call rfl)

/-! ## The right schema -/

def Keyed (stored : TextMap Schema) : Prop :=
  ∀ {typeHref : String} {schema : Schema}, stored[typeHref]? = some schema →
    schema.typeHref = typeHref

/-- Schemas at hand are those that the server has. -/
structure Faithful (stored : TextMap Schema) (s : Loads) : Prop where
  server : s.desk.server.schemas = stored
  cached : ∀ {typeHref : String} {schema : Schema}, s.desk.schemas[typeHref]? = some schema →
    stored[typeHref]? = some schema
  held : ∀ c ∈ s.callers, ∀ {typeHref : String} {schema : Schema},
    c.schema? = some (typeHref, schema) → stored[typeHref]? = some schema

theorem fetchSchema_ok {s server : Server} {typeHref : String} {schema : Schema}
    (answer : s.fetchSchema typeHref = (.ok schema, server)) :
    s.schemas[typeHref]? = some schema ∧ server.schemas = s.schemas := by
  have hbegin := (Server.sameStore_begin s .schema).schemas
  unfold Server.fetchSchema Server.request at answer
  rcases hs : s.begin .schema with ⟨_ | queued, counted⟩ <;> rw [hs] at answer hbegin
  · dsimp only at answer hbegin
    split at answer
    · rename_i found hfound
      cases answer
      rw [hbegin] at hfound
      exact ⟨hfound, hbegin⟩
    · cases answer
  · cases answer

theorem fetchSchema_of_stored {s : Server} {typeHref : String} {schema : Schema}
    (stored : s.schemas[typeHref]? = some schema) (calm : s.failures.get .schema = []) :
    (s.fetchSchema typeHref).1 = .ok schema := by
  unfold Server.fetchSchema Server.request
  rw [Server.begin_of_failures_eq_nil calm]
  simp only [stored]

theorem getElem?_move_of_asks {s : Loads} {n : Nat} {c : Caller} {typeHref : String} {schema : Schema}
    (caller : s.callers[n]? = some c) (asks : c.asked? = some typeHref)
    (stored : s.desk.server.schemas[typeHref]? = some schema)
    (calm : s.desk.server.failures.get .schema = []) :
    (s.move (.step n)).callers[n]? = some (c.reach (.inserts schema)) := by
  have hanswer := fetchSchema_of_stored stored calm
  rcases hf : s.desk.server.fetchSchema typeHref with ⟨answer, server⟩
  rw [hf] at hanswer
  have hstep := s.desk.stepCall_of_asks asks (hf.trans (congrArg (·, server) hanswer))
  obtain ⟨hlt, -⟩ := List.getElem?_eq_some_iff.1 caller
  simp only [Loads.move, caller, hstep]
  exact List.getElem?_set_self hlt

section Step

variable {stored : TextMap Schema} {s : Loads} (h : Faithful stored s)
include h

theorem Faithful.aside {desk : Desk} (discreet : s.desk.Discreet desk) :
    Faithful stored { s with desk } where
  server := discreet.stored.trans h.server
  cached hcached := h.cached (discreet.schemas ▸ hcached)
  held := h.held

theorem Faithful.set {n : Nat} {next : Caller} (sent : List String)
    (held : ∀ {typeHref : String} {schema : Schema}, next.schema? = some (typeHref, schema) →
      stored[typeHref]? = some schema) :
    Faithful stored { s with callers := s.callers.set n next, sent } where
  server := h.server
  cached := h.cached
  held c hc := by
    rcases List.mem_or_eq_of_mem_set hc with hc | rfl
    · exact h.held c hc
    · exact held

theorem Faithful.reach {n : Nat} {c : Caller} {typeHref : String} {stage next : SchemaStage}
    (seeking : c.seeking? = some (typeHref, stage)) (sent : List String)
    (right : ∀ {schema : Schema}, next.schema? = some schema → stored[typeHref]? = some schema) :
    Faithful stored { s with callers := s.callers.set n (c.reach next), sent } := by
  refine h.set sent fun hschema => ?_
  rw [Caller.schema?_of_seeking (Caller.seeking?_reach seeking next)] at hschema
  obtain ⟨found, hfound, heq⟩ := Option.map_eq_some_iff.1 hschema
  cases heq
  exact right hfound

theorem Faithful.step (keyed : Keyed stored) {n : Nat} {c next : Caller} {desk : Desk}
    (caller : s.callers[n]? = some c) (stepsTo : s.desk.StepsTo c desk next) :
    Faithful stored { desk, callers := s.callers.set n next, sent := s.sent ++ sentAt c next } := by
  have hmem := List.mem_of_getElem? caller
  cases stepsTo with
  | misses seeking => exact h.reach seeking _ fun hschema => by cases hschema
  | finds seeking cached =>
    refine h.reach seeking _ fun hschema => ?_
    cases hschema
    exact h.cached cached
  | @sent _ schema server seeking answer =>
    obtain ⟨hstored, hsame⟩ := fetchSchema_ok answer
    have hdesk : s.desk.Discreet { s.desk with server } := ⟨rfl, rfl, hsame⟩
    refine (h.aside hdesk).reach seeking _ fun hschema => ?_
    cases hschema
    exact h.server ▸ hstored
  | @caches _ schema seeking =>
    have hstored := h.held _ hmem (Caller.schema?_of_seeking seeking)
    have hset : Faithful stored { s with callers := s.callers.set n (c.reach (.has schema)) } := by
      refine h.reach seeking s.sent fun hschema => ?_
      cases hschema
      exact hstored
    refine ⟨h.server, fun {typeHref found} hcached => ?_, hset.held⟩
    -- The cache files a schema under the type that it names, which is the one that was wanted.
    simp only [Std.ExtTreeMap.getElem?_insert, Std.LawfulEqOrd.compare_eq_iff_eq] at hcached
    split at hcached
    · rename_i heq
      cases hcached
      rw [← heq, keyed hstored]
      exact hstored
    · exact h.cached hcached
  | gives seeking =>
    refine h.set _ fun hschema => ?_
    cases hschema
    exact h.held _ hmem (Caller.schema?_of_seeking seeking)
  | rests => exact h.set _ (h.held _ hmem)
  | other unstored free discreet =>
    refine (h.aside discreet).set _ fun hschema => ?_
    rw [free.schema] at hschema
    cases hschema

theorem Faithful.move (keyed : Keyed stored) (move : Move) : Faithful stored (s.move move) := by
  have hmove := s.movesTo_move move
  generalize s.move move = moved at hmove
  cases hmove with
  | comes free discreet =>
    refine { h.aside discreet with held := fun c hc => ?_ }
    rcases List.mem_append.1 hc with hc | hc
    · exact h.held c hc
    · intro typeHref schema hschema
      rw [List.mem_singleton.1 hc, free.schema] at hschema
      cases hschema
  | aside discreet => exact h.aside discreet
  | steps caller stepsTo => exact h.step keyed caller stepsTo

end Step

/-! ## Counting -/

def asking (s : Loads) (typeHref : String) : Nat := s.callers.countP (·.asked? = some typeHref)

def storing (s : Loads) (typeHref : String) : Nat := s.callers.countP (·.unstored? = some typeHref)

/-- So many loads of a type are between the look and the insertion. -/
def loading (s : Loads) (typeHref : String) : Nat := s.asking typeHref + s.storing typeHref

theorem countP_set_add {α : Type} {list : List α} {n : Nat} {a : α} (hn : list[n]? = some a)
    (p : α → Bool) (b : α) :
    (list.set n b).countP p + (if p a then 1 else 0) = list.countP p + if p b then 1 else 0 := by
  obtain ⟨hlt, rfl⟩ := List.getElem?_eq_some_iff.1 hn
  have hpos : (if p list[n] = true then 1 else 0) ≤ list.countP p := by
    split
    · exact List.countP_pos_iff.2 ⟨_, List.getElem_mem hlt, ‹_›⟩
    · exact Nat.zero_le _
  rw [List.countP_set hlt]
  omega

theorem sentAt_of_unstored (c : Caller) {next : Caller} (unstored : next.unstored? = none) :
    sentAt c next = [] := by
  unfold sentAt
  rw [unstored]
  split
  · rename_i hsome
    cases hsome
  · rfl

structure Tallies (typeHref : String) (s s' : Loads) : Prop where
  keeps : s'.desk.schemas[typeHref]? = none → s.desk.schemas[typeHref]? = none
  /-- Once the schema is cached, it is sent only to those who were about to ask. -/
  cached : s'.desk.schemas[typeHref]? ≠ none →
    s'.sent.count typeHref + s'.asking typeHref ≤ s.sent.count typeHref + s.asking typeHref
  uncached : s'.desk.schemas[typeHref]? = none →
    s'.sent.count typeHref + s.storing typeHref = s.sent.count typeHref + s'.storing typeHref

theorem tallies_aside {s : Loads} {desk : Desk} (discreet : s.desk.Discreet desk) {c : List Caller}
    (free : ∀ x ∈ c, x.IsFree) (typeHref : String) :
    Tallies typeHref s { s with desk, callers := s.callers ++ c } := by
  have hasking : c.countP (·.asked? = some typeHref) = 0 :=
    List.countP_eq_zero.2 fun x hx => by simp [(free x hx).asked]
  have hstoring : c.countP (·.unstored? = some typeHref) = 0 :=
    List.countP_eq_zero.2 fun x hx => by simp [(free x hx).unstored]
  refine ⟨fun hnone => ?_, fun _ => ?_, fun _ => ?_⟩
  · rwa [← discreet.schemas]
  · simp [asking, List.countP_append, hasking]
  · simp [storing, List.countP_append, hstoring]

section Step

variable {s : Loads} {n : Nat} {c next : Caller} {desk : Desk} {typeHref : String}

theorem Tallies.of_step (caller : s.callers[n]? = some c)
    (keeps : desk.schemas[typeHref]? = none → s.desk.schemas[typeHref]? = none)
    (cached : desk.schemas[typeHref]? ≠ none →
      (sentAt c next).count typeHref + (if next.asked? = some typeHref then 1 else 0) ≤
        if c.asked? = some typeHref then 1 else 0)
    (uncached : desk.schemas[typeHref]? = none →
      (sentAt c next).count typeHref + (if c.unstored? = some typeHref then 1 else 0) =
        if next.unstored? = some typeHref then 1 else 0) :
    Tallies typeHref s
      { desk, callers := s.callers.set n next, sent := s.sent ++ sentAt c next } := by
  have hasking := countP_set_add caller (fun c => decide (c.asked? = some typeHref)) next
  have hstoring := countP_set_add caller (fun c => decide (c.unstored? = some typeHref)) next
  simp only [decide_eq_true_eq] at hasking hstoring
  refine ⟨keeps, fun hcached => ?_, fun hnone => ?_⟩ <;>
    simp only [asking, storing, List.count_append]
  · have hone := cached hcached
    omega
  · have hone := uncached hnone
    omega

theorem tallies_step {stored : TextMap Schema} (h : Faithful stored s)
    (keyed : Keyed stored) (caller : s.callers[n]? = some c)
    (stepsTo : s.desk.StepsTo c desk next) :
    Tallies typeHref s
      { desk, callers := s.callers.set n next, sent := s.sent ++ sentAt c next } := by
  cases stepsTo with
  | @misses wanted seeking missing =>
    have hnext := Caller.seeking?_reach seeking .asks
    refine .of_step caller id (fun hcached => ?_) fun _ => ?_
    · have hother : wanted ≠ typeHref := by
        rintro rfl
        exact hcached missing
      simp [sentAt, Caller.asked?, Caller.unstored?, seeking, hnext, hother]
    · simp [sentAt, Caller.asked?, Caller.unstored?, seeking, hnext]
  | @finds _ schema seeking cached =>
    have hnext := Caller.seeking?_reach seeking (.has schema)
    refine .of_step caller id ?_ ?_ <;> simp [sentAt, Caller.asked?, Caller.unstored?, seeking, hnext]
  | @sent _ schema server seeking answer =>
    have hnext := Caller.seeking?_reach seeking (.inserts schema)
    refine .of_step caller id ?_ ?_ <;>
      simp [sentAt, Caller.asked?, Caller.unstored?, seeking, hnext, List.count_singleton]
  | @caches wanted schema seeking =>
    -- If the type is still missing after this, the schema that has come is of another type.
    have hkeyed := keyed (h.held _ (List.mem_of_getElem? caller) (Caller.schema?_of_seeking seeking))
    have hgone : (s.desk.schemas.insert schema.typeHref schema)[typeHref]? = none →
        wanted ≠ typeHref ∧ s.desk.schemas[typeHref]? = none := by
      intro hnone
      simp only [Std.ExtTreeMap.getElem?_insert, Std.LawfulEqOrd.compare_eq_iff_eq] at hnone
      split at hnone
      · cases hnone
      · rename_i hne
        rw [hkeyed] at hne
        exact ⟨hne, hnone⟩
    have hnext := Caller.seeking?_reach seeking (.has schema)
    refine .of_step caller (fun hnone => (hgone hnone).2) ?_ fun hnone => ?_
    · simp [sentAt, Caller.asked?, Caller.unstored?, seeking, hnext]
    · simp [sentAt, Caller.asked?, Caller.unstored?, seeking, hnext, (hgone hnone).1]
  | @gives wanted schema seeking =>
    have hnext : (Caller.loaded wanted (.ok schema)).seeking? = none := rfl
    refine .of_step caller id ?_ ?_ <;> simp [sentAt, Caller.asked?, Caller.unstored?, seeking, hnext]
  | rests idle =>
    refine .of_step caller id ?_ ?_ <;> simp [sentAt, Caller.asked?, Caller.unstored?, idle]
  | other unstored free discreet =>
    refine .of_step caller (fun hnone => by rwa [← discreet.schemas]) ?_ ?_ <;>
      simp [sentAt_of_unstored _ free.unstored, unstored, free.asked, free.unstored]

end Step

theorem tallies_move {stored : TextMap Schema} {s : Loads} (h : Faithful stored s)
    (keyed : Keyed stored) (move : Move) (typeHref : String) :
    Tallies typeHref s (s.move move) := by
  have hmove := s.movesTo_move move
  generalize s.move move = moved at hmove
  cases hmove with
  | @comes desk c free discreet =>
    exact tallies_aside discreet (fun x hx => List.mem_singleton.1 hx ▸ free) typeHref
  | aside discreet =>
    have haside := tallies_aside discreet (c := []) (by simp) typeHref
    rw [List.append_nil] at haside
    exact haside
  | steps caller stepsTo => exact tallies_step h keyed caller stepsTo

/-! ## Runs -/

section Run

variable {stored : TextMap Schema} (keyed : Keyed stored)
include keyed

theorem Faithful.moves {s : Loads} (h : Faithful stored s) (moves : List Move) :
    Faithful stored (moves.foldl Loads.move s) := by
  induction moves generalizing s with
  | nil => exact h
  | cons move rest ih => exact ih (h.move keyed move)

theorem sent_of_cached {s : Loads} (h : Faithful stored s) {typeHref : String}
    (cached : s.desk.schemas[typeHref]? ≠ none) (moves : List Move) :
    let last := moves.foldl Loads.move s
    last.desk.schemas[typeHref]? ≠ none ∧
      last.sent.count typeHref + last.asking typeHref ≤
        s.sent.count typeHref + s.asking typeHref := by
  induction moves generalizing s with
  | nil => exact ⟨cached, Nat.le_refl _⟩
  | cons move rest ih =>
    have htally := tallies_move h keyed move typeHref
    have hnext := mt htally.keeps cached
    obtain ⟨hlast, hle⟩ := ih (h.move keyed move) hnext
    exact ⟨hlast, Nat.le_trans hle (htally.cached hnext)⟩

end Run

/-- Until the schema of a type is cached, each one that was sent is still to be stored; after that, those
sent and those still asked for are not more than the loads that overlapped. -/
structure Within (typeHref : String) (n : Nat) (s : Loads) : Prop where
  uncached : s.desk.schemas[typeHref]? = none → s.sent.count typeHref = s.storing typeHref
  cached : s.desk.schemas[typeHref]? ≠ none →
    s.sent.count typeHref + s.asking typeHref ≤ n

theorem Within.step {typeHref : String} {n : Nat} {s s' : Loads} (h : Within typeHref n s)
    (overlap : s.loading typeHref ≤ n) (tallies : Tallies typeHref s s') : Within typeHref n s' where
  uncached hnone := by
    have heven := tallies.uncached hnone
    have hsent := h.uncached (tallies.keeps hnone)
    omega
  cached hcached := by
    have hle := tallies.cached hcached
    by_cases hnone : s.desk.schemas[typeHref]? = none
    · -- This move stores the first schema, so all loads of the type are counted here.
      have hsent := h.uncached hnone
      unfold loading at overlap
      omega
    · exact Nat.le_trans hle (h.cached hnone)

theorem Within.moves {stored : TextMap Schema} (keyed : Keyed stored) {typeHref : String} {n : Nat}
    {s : Loads} (faithful : Faithful stored s) (h : Within typeHref n s) {moves : List Move}
    (overlap : ∀ early, early <+: moves → (early.foldl Loads.move s).loading typeHref ≤ n) :
    Within typeHref n (moves.foldl Loads.move s) := by
  induction moves generalizing s with
  | nil => exact h
  | cons move rest ih =>
    have hnow := overlap [] (by simp)
    refine ih (faithful.move keyed move) (h.step hnow (tallies_move faithful keyed move typeHref)) ?_
    intro early hearly
    exact overlap (move :: early) (by simpa using hearly)

theorem Within.sent_le {typeHref : String} {n : Nat} {s : Loads} (h : Within typeHref n s)
    (overlap : s.loading typeHref ≤ n) : s.sent.count typeHref ≤ n := by
  unfold loading at overlap
  by_cases hnone : s.desk.schemas[typeHref]? = none
  · have hsent := h.uncached hnone
    omega
  · have hle := h.cached hnone
    omega

/-- Any number of saves, edits and loads at once, from a schema cache that is empty. What a caller has
or was given is the schema that the server has for the type it wanted, and one that asks is sent it
unless a failure is queued. Once it is cached it stays so, and it is sent only to those who were about
to ask; so it is sent no more often than loads of the type overlapped. -/
theorem schema_loads {d : Desk} (reachable : d.server.Reachable) (fresh : d.schemas = ∅)
    (moves : List Move) (typeHref : String) :
    (∀ c ∈ (run d moves).callers, ∀ wanted schema, c.schema? = some (wanted, schema) →
      d.server.schemas[wanted]? = some schema ∧ schema.typeHref = wanted) ∧
    (∀ n c wanted schema, (run d moves).callers[n]? = some c → c.asked? = some wanted →
      d.server.schemas[wanted]? = some schema →
      (run d moves).desk.server.failures.get .schema = [] →
      (run d (moves ++ [.step n])).callers[n]? = some (c.reach (.inserts schema))) ∧
    (∀ schema, (run d moves).desk.schemas[typeHref]? = some schema →
      d.server.schemas[typeHref]? = some schema) ∧
    (∀ later, (run d moves).desk.schemas[typeHref]? ≠ none →
      (run d (moves ++ later)).desk.schemas[typeHref]? = (run d moves).desk.schemas[typeHref]? ∧
        (run d (moves ++ later)).sent.count typeHref ≤
          (run d moves).sent.count typeHref + (run d moves).asking typeHref) ∧
    (∀ n, (∀ early, early <+: moves → (run d early).loading typeHref ≤ n) →
      (run d moves).sent.count typeHref ≤ n) := by
  have keyed : Keyed d.server.schemas := fun hstored => reachable.typeHref_eq hstored
  have hstart : Faithful d.server.schemas { desk := d } :=
    { server := rfl
      cached := fun hcached => by simp [fresh] at hcached
      held := fun c hc => by cases hc }
  have hrun : ∀ moves, Faithful d.server.schemas (run d moves) := hstart.moves keyed
  refine ⟨fun c hc wanted schema hschema => ?_, fun n c wanted schema caller asks stored calm => ?_,
    fun schema hcached => (hrun moves).cached hcached, fun later hcached => ?_, fun n overlap => ?_⟩
  · have hstored := (hrun moves).held c hc hschema
    exact ⟨hstored, keyed hstored⟩
  · rw [← (hrun moves).server] at stored
    rw [run_append]
    exact getElem?_move_of_asks caller asks stored calm
  · obtain ⟨hstill, hle⟩ := sent_of_cached keyed (hrun moves) hcached later
    rw [← run_append] at hstill hle
    constructor
    · obtain ⟨before, hbefore⟩ := Option.ne_none_iff_exists'.1 hcached
      obtain ⟨after, hafter⟩ := Option.ne_none_iff_exists'.1 hstill
      rw [hbefore, hafter, ← (hrun moves).cached hbefore, (hrun (moves ++ later)).cached hafter]
    · exact Nat.le_trans (Nat.le_add_right _ _) hle
  · have hempty : Within typeHref n { desk := d } :=
      ⟨fun _ => rfl, fun hcached => absurd (by simp [fresh]) hcached⟩
    exact (hempty.moves keyed hstart overlap).sent_le (overlap moves (List.prefix_refl moves))

open BusyDesk (quietDesk)

theorem reachable_quietDesk : quietDesk.server.Reachable := (Server.Reachable.empty.insert _).insertSchema _

theorem schema_loads_in_turn :
    let moves : List Move :=
      [.load "task", .step 0, .step 0, .edit { text := "7" }, .step 0, .step 0, .step 1, .step 1, .step 1]
    (run quietDesk moves).callers.length = 2 ∧
      ((run quietDesk moves).callers.head?.bind Caller.schema?).isSome = true ∧
      (∀ c ∈ (run quietDesk moves).callers, ∀ wanted schema, c.schema? = some (wanted, schema) →
        schema.typeHref = wanted) ∧
      (run quietDesk moves).sent.count "task" ≤ 1 ∧
      (run quietDesk moves).desk.schemas["task"]?.isSome = true := by
  intro moves
  obtain ⟨hheld, -, -, -, hsent⟩ := schema_loads reachable_quietDesk rfl moves "task"
  have overlap : ∀ k < 10, (run quietDesk (moves.take k)).loading "task" ≤ 1 := by decide +kernel
  refine ⟨by decide +kernel, by decide +kernel, ?_, hsent 1 fun early hearly => ?_, by decide +kernel⟩
  · exact fun c hc wanted schema hschema => (hheld c hc wanted schema hschema).2
  · rw [List.prefix_iff_eq_take.1 hearly]
    exact overlap early.length (Nat.lt_succ_of_le hearly.length_le)

/-- While a save asks for the schema of its type, another caller loads it. The server sends it twice. -/
theorem schema_sent_twice :
    let snapshot : Snapshot := { id := { text := "7" }, lockVersion := 3, typeHref := "task" }
    let moves : List Move :=
      [.act (.changeFor snapshot none) trivial, .act (.setValue 1 "subject" (.text "Mine")) trivial,
        .save 1, .step 0, .step 0, .load "task", .step 1, .step 1, .step 1, .step 1, .step 0, .step 0]
    quietDesk.server.Reachable ∧ quietDesk.schemas = ∅ ∧
      (run quietDesk moves).sent.count "task" = 2 ∧
      (run quietDesk moves).desk.server.calls.get .schema = 2 := by
  intro snapshot moves
  refine ⟨reachable_quietDesk, rfl, ?_, ?_⟩ <;> decide +kernel

end Loads

end Draftboard
