import Draftboard.Toml.Document
import Draftboard.Timeline.View
/-!
# Settings

The settings of a project and of a user, where they are read from, and which form of output they
ask for.
-/

namespace Draftboard

/-! ## Files -/

/-- What is found at the place of a file. -/
inductive Source where
  | absent
  | unreadable
  | text (content : String)
deriving DecidableEq, Inhabited

/-- The place of a file below a directory. -/
def pathIn (directory file : String) : String :=
  if directory.toList.getLast? = some '/' then directory ++ file else directory ++ "/" ++ file

/-! ## Settings -/

/-- What a table of settings has for some names. A list has them in order, and what it holds beyond
them is passed over. -/
def settingsIn? (names : List String) : Json → Option (List (Option Json))
  | .arr items => (Json.arr (items.take names.length)).record? names
  | j => j.record? names

structure HookSettings where
  refreshParent : Bool := true
  invalidateActivity : Bool := true
  publishEvents : Bool := true
deriving DecidableEq, Inhabited

structure EditorSettings where
  pixelsPerDay : Float := 30.0
  hooks : HookSettings := {}
  notifySuccess : Bool := true

structure UserSettings where
  output : Option String := none
deriving DecidableEq, Inhabited

namespace HookSettings

def ofJson? (j : Json) : Option HookSettings := do
  let [parent, activity, events] ← settingsIn?
    ["refresh_parent", "invalidate_activity", "publish_events"] j | none
  let refreshParent ← Json.defaulted true parent
  let invalidateActivity ← Json.defaulted true activity
  let publishEvents ← Json.defaulted true events
  some { refreshParent, invalidateActivity, publishEvents }

def toJson (s : HookSettings) : Json :=
  .obj [("refresh_parent", s.refreshParent), ("invalidate_activity", s.invalidateActivity),
    ("publish_events", s.publishEvents)]

instance : FromJson HookSettings := ⟨ofJson?⟩
instance : ToJson HookSettings := ⟨toJson⟩

end HookSettings

namespace EditorSettings

def ofJson? (j : Json) : Option EditorSettings := do
  let [timeline, hooks, save] ← settingsIn? ["timeline", "hooks", "save"] j | none
  let [scale] ← settingsIn? ["pixels_per_day"] (timeline.getD (.obj [])) | none
  let [success] ← settingsIn? ["notify_success"] (save.getD (.obj [])) | none
  let pixelsPerDay ← Json.defaulted 30.0 scale
  let hooks ← Json.defaulted {} hooks
  let notifySuccess ← Json.defaulted true success
  some { pixelsPerDay, hooks, notifySuccess }

def toJson (s : EditorSettings) : Json :=
  .obj [("timeline", .obj [("pixels_per_day", s.pixelsPerDay)]), ("hooks", s.hooks),
    ("save", .obj [("notify_success", s.notifySuccess)])]

end EditorSettings

namespace UserSettings

def ofJson? (j : Json) : Option UserSettings := do
  let [output] ← settingsIn? ["output"] j | none
  let output ← Json.nullable output
  some { output }

def toJson (s : UserSettings) : Json := .obj [("output", s.output)]

end UserSettings

/-! ## Reading -/

inductive LoadError where
  | unreadable (path : String)
  | malformed (path : String)
  | badScale (path : String)
deriving DecidableEq

def LoadError.message : LoadError → String
  | unreadable path => "Failed to read " ++ path
  | malformed path => "Failed to parse " ++ path
  | badScale path => "Invalid timeline.pixels_per_day in " ++ path ++ ": must be a positive number"

/-- Settings from a TOML file; without a file they are the usual ones. -/
def loadToml {α : Type} (path : String) (usual : α) (ofJson? : Json → Option α) :
    Source → Except LoadError α
  | .absent => .ok usual
  | .unreadable => .error (.unreadable path)
  | .text content =>
    match (Toml.read? content).bind ofJson? with
    | some settings => .ok settings
    | none => .error (.malformed path)

def EditorSettings.load (root : String) (file : Source) : Except LoadError EditorSettings := do
  let path := pathIn root ".wpedit/config.toml"
  let settings ← loadToml path {} EditorSettings.ofJson? file
  if Timeline.isValidScale settings.pixelsPerDay then .ok settings else .error (.badScale path)

def UserSettings.load (directory : String) (file : Source) : Except LoadError UserSettings :=
  loadToml (pathIn directory "wpedit/config.toml") {} UserSettings.ofJson? file

/-! ## Output -/

inductive OutputMode where
  | human
  | json
deriving DecidableEq, Inhabited

namespace OutputMode

def name : OutputMode → String
  | human => "human"
  | json => "json"

/-- The mode that a word asks for; case and blanks around it do not matter. -/
def ofWord? (word : String) : Option OutputMode :=
  let word := (Text.trim word).map Char.toLower
  if word = "human" ∨ word = "pretty" ∨ word = "text" then some human
  else if word = "json" then some json
  else none

/-- The flag comes first, then the environment, then the user; else people get text on a terminal,
and programs JSON. -/
def resolve (flag : Bool) (user environment : Option String) (terminal : Bool) : OutputMode :=
  if flag then json
  else ((environment.bind ofWord?).or (user.bind ofWord?)).getD (if terminal then human else json)

end OutputMode

end Draftboard
