import Std.Data.ExtTreeSet
import Std.Data.ExtTreeSet.Lemmas
import Draftboard.Changeset.Payload
import Draftboard.Attachment
import Draftboard.Errors
/-!
# The server

A server that keeps everything in memory. It refuses a save that is based on an old lock version,
gives new work packages the next id, and touches the parent of what it saves. Ids and lock versions
count in 64 bits, and after the last number they begin anew. Failures can be queued for each kind of
request, and all requests are counted.
-/

namespace Draftboard

/-! ## Kinds of requests -/

inductive Operation where
  | fetch
  | schema
  | update
  | since
  | delete
deriving DecidableEq, Inhabited

def Operation.all : List Operation := [.fetch, .schema, .update, .since, .delete]

structure PerOperation (α : Type) where
  fetch : α
  schema : α
  update : α
  since : α
  delete : α
deriving DecidableEq, Inhabited

namespace PerOperation

def fill {α : Type} (a : α) : PerOperation α :=
  { fetch := a, schema := a, update := a, since := a, delete := a }

def get {α : Type} (p : PerOperation α) : Operation → α
  | .fetch => p.fetch
  | .schema => p.schema
  | .update => p.update
  | .since => p.since
  | .delete => p.delete

def set {α : Type} (p : PerOperation α) (op : Operation) (a : α) : PerOperation α :=
  match op with
  | .fetch => { p with fetch := a }
  | .schema => { p with schema := a }
  | .update => { p with update := a }
  | .since => { p with since := a }
  | .delete => { p with delete := a }

theorem get_set {α : Type} (p : PerOperation α) (op other : Operation) (a : α) :
    (p.set op a).get other = if op = other then a else p.get other := by
  cases op <;> cases other <;> rfl

end PerOperation

/-! ## Counters -/

/-- The next count of a counter that has 64 bits and begins anew at zero. -/
def nextCount (n : Nat) : Nat := if n + 1 < UInt64.size then n + 1 else 0

theorem nextCount_of_lt {n : Nat} (room : n + 1 < UInt64.size) : nextCount n = n + 1 := if_pos room

theorem nextCount_le (n : Nat) : nextCount n ≤ n + 1 := by
  unfold nextCount
  split <;> omega

/-- The next version of a snapshot with nothing else changed. -/
def Snapshot.touch (s : Snapshot) (now : Instant) : Snapshot :=
  { s with lockVersion := nextCount s.lockVersion, updatedAt := some now }

/-- Writes what a payload submits. A cleared attribute is kept as null, so that answers list it. -/
def Snapshot.applyPayload (s : Snapshot) (p : Payload) : Snapshot :=
  { s with attributes := s.attributes ∪ p.attributes ∪ p.links }

/-! ## The server -/

structure Server where
  packages : IdMap Snapshot := ∅
  schemas : TextMap Schema := ∅
  /-- Ids of the stored attachments. -/
  attachments : Std.ExtTreeSet String := ∅
  /-- The number that the next id comes after: the last one given out, or a larger one seeded since. -/
  lastId : Nat := 0
  /-- Errors that the next requests of a kind will fail with. -/
  failures : PerOperation (List ApiError) := .fill []
  calls : PerOperation Nat := .fill 0
deriving Inhabited

namespace Server

/-! ### Seeding -/

/-- Stores a work package; an id that is a number moves the next id past it. -/
def insert (s : Server) (snapshot : Snapshot) : Server :=
  { s with
    lastId := max s.lastId (snapshot.id.number?.getD 0)
    packages := s.packages.insert snapshot.id snapshot }

def insertSchema (s : Server) (schema : Schema) : Server :=
  { s with schemas := s.schemas.insert schema.typeHref schema }

def insertAttachment (s : Server) (a : Attachment) : Server :=
  { s with attachments := s.attachments.insert a.id }

/-- Makes a later request of a kind fail, after the failures queued before. -/
def failNext (s : Server) (op : Operation) (error : ApiError) : Server :=
  { s with failures := s.failures.set op (s.failures.get op ++ [error]) }

def stored? (s : Server) (id : PackageId) : Option Snapshot := s.packages[id]?

/-! ### Requests -/

/-- Counts a request, and takes the first failure that is queued for its kind. -/
def begin (s : Server) (op : Operation) : Option ApiError × Server :=
  let counted := { s with calls := s.calls.set op (s.calls.get op + 1) }
  match s.failures.get op with
  | [] => (none, counted)
  | error :: rest => (some error, { counted with failures := s.failures.set op rest })

/-- A request that fails if a failure is queued for it, and else does its work. -/
def request {α : Type} (s : Server) (op : Operation)
    (work : Server → Except ApiError α × Server) : Except ApiError α × Server :=
  match s.begin op with
  | (some error, s) => (.error error, s)
  | (none, s) => work s

def fetch (s : Server) (id : PackageId) : Except ApiError Snapshot × Server :=
  s.request .fetch fun s =>
    match s.packages[id]? with
    | some snapshot => (.ok snapshot, s)
    | none => (.error (.notFound .workPackage id.text), s)

def fetchSchema (s : Server) (typeHref : String) : Except ApiError Schema × Server :=
  s.request .schema fun s =>
    match s.schemas[typeHref]? with
    | some schema => (.ok schema, s)
    | none => (.error (.notFound .schema typeHref), s)

/-- The record that a save makes: a new one under the next id, or the next version of the stored
one if the payload is based on it. -/
def savedRecord (s : Server) (now : Instant) (pristine : Snapshot) (payload : Payload) :
    Except ApiError Snapshot :=
  if pristine.isNew then
    .ok ({ pristine with
      id := .ofNumber (nextCount s.lastId), lockVersion := 0,
      updatedAt := some now }.applyPayload payload)
  else
    match s.packages[pristine.id]? with
    | none => .error (.notFound .workPackage pristine.id.text)
    | some current =>
      if current.lockVersion ≠ payload.lockVersion then
        .error (.conflict pristine.id payload.lockVersion current.lockVersion)
      else .ok ((current.applyPayload payload).touch now)

def touchStored (s : Server) (now : Instant) (id : PackageId) : Server :=
  match s.packages[id]? with
  | some snapshot => { s with packages := s.packages.insert id (snapshot.touch now) }
  | none => s

/-- Stores a saved record after touching its parent. -/
def store (s : Server) (now : Instant) (saved : Snapshot) : Server :=
  let s := match saved.parentId? with
    | some parent => s.touchStored now parent
    | none => s
  { s with packages := s.packages.insert saved.id saved }

/-- Saves at once: all of the payload, or nothing. -/
def update (s : Server) (now : Instant) (pristine : Snapshot) (payload : Payload) :
    Except ApiError Snapshot × Server :=
  s.request .update fun s =>
    match s.savedRecord now pristine payload with
    | .error error => (.error error, s)
    | .ok saved =>
      let s := if pristine.isNew then { s with lastId := nextCount s.lastId } else s
      (.ok saved, s.store now saved)

def updatedSince (s : Server) (ids : List PackageId) (since : Instant) :
    Except ApiError (List Snapshot) × Server :=
  s.request .since fun s =>
    (.ok ((ids.filterMap fun id => s.packages[id]?).filter fun wp => wp.updatedAt.any (since ≤ ·)), s)

def deleteAttachment (s : Server) (a : Attachment) : Except ApiError Unit × Server :=
  s.request .delete fun s =>
    if a.id ∈ s.attachments then
      (.ok (), { s with attachments := s.attachments.erase a.id })
    else (.error (.notFound .attachment a.id), s)

end Server

end Draftboard
