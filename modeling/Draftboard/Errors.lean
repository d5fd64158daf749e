import Draftboard.Package.Id
import Draftboard.Json.Basic
/-!
# Errors

Why a save or a request fails: messages about fields, errors of the server, and the errors of
editing itself, each with a stable code and one text.
-/

namespace Draftboard

/-! ## Codes -/

/-- Kinds of failure that callers tell apart. -/
inductive ErrorCode where
  | validationFailed
  | saveInFlight
  | transportFailed
  | serverRejected
  | versionConflict
  | notFound
  | configParseError
  | internalUnexpected
deriving DecidableEq

namespace ErrorCode

/-- The code that programs read. -/
def code : ErrorCode → String
  | validationFailed => "E1001"
  | saveInFlight => "E1002"
  | transportFailed => "E2001"
  | serverRejected => "E2002"
  | versionConflict => "E2003"
  | notFound => "E2004"
  | configParseError => "E3001"
  | internalUnexpected => "E9001"

/-- The summary that people read. -/
def summary : ErrorCode → String
  | validationFailed => "Change-set failed validation"
  | saveInFlight => "Save already in flight"
  | transportFailed => "Transport failure"
  | serverRejected => "Server rejected the request"
  | versionConflict => "Work package was modified concurrently"
  | notFound => "Work package not found"
  | configParseError => "Config file parse error"
  | internalUnexpected => "Internal unexpected error"

def hint? : ErrorCode → Option String
  | validationFailed => some "Correct the highlighted fields and save again."
  | saveInFlight => some "Wait for the pending save to finish."
  | transportFailed => some "Check the connection and retry the save."
  | versionConflict => some "Reload the work package, reapply your edits and save again."
  | configParseError => some "Fix syntax in .wpedit/config.toml and retry."
  | internalUnexpected => some "Retry once. If persistent, report a bug with logs."
  | serverRejected | notFound => none

end ErrorCode

/-! ## Messages about fields -/

/-- Messages by attribute; each attribute has its messages in the order they came. -/
structure ValidationErrors where
  fields : TextMap (List String) := ∅
deriving DecidableEq, Inhabited

namespace ValidationErrors

def add (errors : ValidationErrors) (name message : String) : ValidationErrors :=
  { fields := errors.fields.insert name (errors.fields[name]?.getD [] ++ [message]) }

/-- Adds all messages of one attribute; an empty list adds nothing. -/
def addAll (errors : ValidationErrors) (name : String) (messages : List String) :
    ValidationErrors :=
  messages.foldl (·.add name) errors

def merge (errors : ValidationErrors) (other : TextMap (List String)) : ValidationErrors :=
  other.toList.foldl (fun errors (name, messages) => errors.addAll name messages) errors

def ofMap (messages : TextMap (List String)) : ValidationErrors := merge {} messages

def isEmpty (errors : ValidationErrors) : Bool := errors.fields.isEmpty

def messagesFor (errors : ValidationErrors) (name : String) : List String :=
  errors.fields[name]?.getD []

def attributes (errors : ValidationErrors) : List String := errors.fields.keys

/-- All messages, each behind the name of its attribute. -/
def message (errors : ValidationErrors) : String :=
  "; ".intercalate (errors.fields.toList.flatMap fun (name, messages) =>
    messages.map fun text => name ++ " " ++ text)

theorem messagesFor_add (errors : ValidationErrors) (name other message : String) :
    (errors.add name message).messagesFor other =
      if name = other then errors.messagesFor other ++ [message] else errors.messagesFor other := by
  simp only [messagesFor, add, Std.ExtTreeMap.getElem?_insert, Std.LawfulEqOrd.compare_eq_iff_eq]
  split
  · simp_all
  · rfl

end ValidationErrors

/-! ## Errors of the server -/

inductive Resource where
  | workPackage
  | schema
  | attachment
deriving DecidableEq

def Resource.name : Resource → String
  | workPackage => "work package"
  | schema => "schema"
  | attachment => "attachment"

inductive ApiError where
  | transport (message : String)
  | status (status : Nat) (message : String)
  /-- The work package has moved on since the lock version that was sent. -/
  | conflict (id : PackageId) (sent current : Nat)
  | notFound (what : Resource) (id : String)
  /-- The server's own validation failed. -/
  | rejected (errors : ValidationErrors)
deriving DecidableEq

namespace ApiError

def code : ApiError → ErrorCode
  | transport _ => .transportFailed
  | status _ _ | rejected _ => .serverRejected
  | conflict .. => .versionConflict
  | notFound .. => .notFound

def message : ApiError → String
  | transport text => "transport error: " ++ text
  | status n text => "server responded " ++ toString n ++ ": " ++ text
  | conflict id sent current =>
    "work package " ++ id.text ++ " was updated concurrently (sent lock version " ++ toString sent ++
      ", current " ++ toString current ++ ")"
  | notFound what id => what.name ++ " " ++ id ++ " not found"
  | rejected errors => "server rejected the payload: " ++ errors.message

end ApiError

/-! ## Errors of editing -/

inductive EditError where
  /-- The change-set failed validation, and nothing was sent. -/
  | validation (errors : ValidationErrors)
  /-- A save of the change-set has not come back yet. -/
  | saveInFlight (id : PackageId)
  | api (error : ApiError)
deriving DecidableEq

namespace EditError

def code : EditError → ErrorCode
  | validation _ => .validationFailed
  | saveInFlight _ => .saveInFlight
  | api error => error.code

def message : EditError → String
  | validation errors => "validation failed: " ++ errors.message
  | saveInFlight id => "a save for work package " ++ id.text ++ " is already in flight"
  | api error => error.message

/-- Messages about fields, of the local validation or the server's. -/
def validationErrors? : EditError → Option ValidationErrors
  | validation errors | api (.rejected errors) => some errors
  | _ => none

end EditError

end Draftboard
