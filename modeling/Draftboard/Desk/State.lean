import Draftboard.Desk.PackageCache
import Draftboard.Changeset.Basic
import Draftboard.Server
import Draftboard.Events
/-!
# The desk

All that editing works with: the server, what is cached of it, the change-sets and where they are
registered, subscribers, hooks and the event bus. What subscribers and users get to see is
written down in order.
-/

namespace Draftboard

/-! ## Change-sets on the desk -/

/-- Names one change-set on the desk; two handles are equal when they name the same one. -/
abbrev Handle := Nat

structure Draft where
  changeset : Changeset
  /-- Edits of this change-set are reported to the views of its work package. -/
  reported : Bool
deriving DecidableEq, Inhabited

/-! ## Commits and hooks -/

structure Commit where
  /-- The id of the saved work package, which is a new one when `wasNew`. -/
  id : PackageId
  wasNew : Bool
  workPackage : Snapshot
  changes : Attributes
deriving DecidableEq, Inhabited

/-- A change that a hook of a caller's own makes to the cache. -/
inductive CacheWrite where
  | put (snapshot : Snapshot)
  | drop (id : PackageId)
deriving DecidableEq, Inhabited

/-- What happens after a commit. -/
inductive Hook where
  | invalidateActivity
  | refreshParent
  | publishEvents
  /-- Write down that the hook ran, and fail or not. -/
  | probe (name : String) (fails : Bool)
  /-- A hook of a caller's own: what it does to the cache, seeing the commit and the entries, and
  whether it fails. -/
  | custom (writes : Commit → IdMap Snapshot → List CacheWrite) (fails : Bool)
deriving Inhabited

/-! ## What others get to see -/

/-- The state of a change-set as a commit subscriber sees it. -/
structure DraftStanding where
  inFlight : Bool
  isEmpty : Bool
deriving DecidableEq, Inhabited

/-- A message to a subscriber or a run of a probe, with what the cache held at that moment. -/
inductive Delivery where
  | cache (number : Nat) (value : Option Snapshot) (cached : Option Nat)
  | view (number : Nat) (value : Option Snapshot)
  | commit (number : Nat) (record : Commit) (standing : Option DraftStanding) (cached : Option Nat)
  | probe (name : String) (id : PackageId) (cached : Option Nat)
deriving DecidableEq

inductive Notice where
  | saved (id : PackageId)
  | failed (id : PackageId) (code message : String)
deriving DecidableEq

def Notice.ofError (error : EditError) (id : PackageId) : Notice :=
  failed id error.code.code error.message

/-! ## Views -/

/-- Subscribers of the views, and the one cache subscription that each viewed id has. -/
structure ViewHub where
  subscriptions : IdMap (List Nat) := ∅
  cacheLinks : IdMap Nat := ∅
  lastNumber : Nat := 0
deriving DecidableEq, Inhabited

def ViewHub.subscriptionsOf (v : ViewHub) (id : PackageId) : List Nat := v.subscriptions[id]?.getD []

theorem ViewHub.subscriptionsOf_insert (v : ViewHub) (id other : PackageId) (numbers : List Nat) :
    ({ v with subscriptions := v.subscriptions.insert id numbers } : ViewHub).subscriptionsOf other =
      if id = other then numbers else v.subscriptionsOf other := by
  unfold ViewHub.subscriptionsOf
  rw [Std.ExtTreeMap.getElem?_insert]
  simp only [Std.LawfulEqOrd.compare_eq_iff_eq]
  split <;> rfl

theorem ViewHub.subscriptionsOf_erase (v : ViewHub) (id other : PackageId) :
    ({ v with subscriptions := v.subscriptions.erase id } : ViewHub).subscriptionsOf other =
      if id = other then [] else v.subscriptionsOf other := by
  unfold ViewHub.subscriptionsOf
  rw [Std.ExtTreeMap.getElem?_erase]
  simp only [Std.LawfulEqOrd.compare_eq_iff_eq]
  split <;> rfl

/-! ## The desk -/

structure Desk where
  server : Server := {}
  clock : Clock := default
  cache : PackageCache := {}
  schemas : TextMap Schema := ∅
  activity : IdMap (List String) := ∅
  /-- Every change-set made so far. -/
  drafts : Std.ExtTreeMap Nat Draft := ∅
  lastHandle : Handle := 0
  /-- The change-set that is being edited, for each work package that has one. -/
  registry : IdMap Handle := ∅
  views : ViewHub := {}
  commitSubscriptions : List Nat := []
  lastCommitNumber : Nat := 0
  hooks : List Hook := []
  bus : EventBus := {}
  deliveries : List Delivery := []
  notices : List Notice := []
deriving Inhabited

namespace Desk

/-! ### Change-sets -/

def changeset (d : Desk) (h : Handle) : Changeset := (d.drafts[h]?.map (·.changeset)).getD default

def isReported (d : Desk) (h : Handle) : Bool := d.drafts[h]?.any (·.reported)

/-- Changes a change-set and tells nobody. -/
def modifyQuietly (d : Desk) (h : Handle) (f : Changeset → Changeset) : Desk :=
  { d with drafts := d.drafts.modify h fun draft => { draft with changeset := f draft.changeset } }

def setInFlight (d : Desk) (h : Handle) (inFlight : Bool) : Desk :=
  d.modifyQuietly h fun c => { c with inFlight }

def newDraft (d : Desk) (draft : Draft) : Desk × Handle :=
  let h := d.lastHandle + 1
  ({ d with drafts := d.drafts.insert h draft, lastHandle := h }, h)

def registered? (d : Desk) (id : PackageId) : Option Handle := d.registry[id]?

/-! ### Writing down -/

def cachedVersion (d : Desk) (id : PackageId) : Option Nat := (d.cache.get? id).map (·.lockVersion)

def deliver (d : Desk) (x : Delivery) : Desk := { d with deliveries := d.deliveries ++ [x] }

def notify (d : Desk) (notice : Notice) : Desk := { d with notices := d.notices ++ [notice] }

def publishEvent (d : Desk) (event : DomainEvent) : Desk := { d with bus := d.bus.publish event }

/-! ### Requests -/

def request {α : Type} (d : Desk) (send : Server → Except ApiError α × Server) :
    Desk × Except ApiError α :=
  let (result, server) := send d.server
  ({ d with server }, result)

def readClock (d : Desk) : Desk × Instant :=
  let (now, clock) := d.clock.read
  ({ d with clock }, now)

/-! ### Small facts -/

theorem changeset_modifyQuietly (d : Desk) (h other : Handle) (f : Changeset → Changeset)
    (known : d.drafts[h]?.isSome = true) :
    (d.modifyQuietly h f).changeset other = if h = other then f (d.changeset h) else d.changeset other := by
  simp only [modifyQuietly, changeset, Std.ExtTreeMap.getElem?_modify, Std.LawfulEqOrd.compare_eq_iff_eq]
  split
  · obtain ⟨draft, hd⟩ := Option.isSome_iff_exists.1 known
    subst_vars
    simp [hd]
  · rfl

end Desk

end Draftboard
