import Draftboard.Replay.Report
/-!
# The command line

`replay` runs a script and prints the report; `config` prints the settings in effect. Everything a
command needs from outside is handed to it as a value, and what it prints is a value too.
-/

namespace Draftboard

/-! ## Arguments -/

inductive Command where
  | replay (script : String) (strict : Bool)
  | config
deriving DecidableEq

structure Invocation where
  verbose : Bool := false
  json : Bool := false
  command : Command
deriving DecidableEq

namespace Invocation

/-- The arguments of one command read so far; an option may be given once. -/
structure Arguments where
  positional : List String := []
  options : List String := []

/-- Adds an option, unless it is not allowed here or given already. -/
def Arguments.option? (p : Arguments) (allowed : List String) (option : String) : Option Arguments :=
  if allowed.contains option ∧ ¬ p.options.contains option then
    some { p with options := option :: p.options }
  else none

def Arguments.value (p : Arguments) (s : String) : Arguments := { p with positional := p.positional ++ [s] }

/-- Reads the arguments that follow the name of a command. After `--` all are positional. -/
def arguments? (allowed : List String) (p : Arguments) : List String → Option Arguments
  | [] => some p
  | "--" :: rest => some (rest.foldl Arguments.value p)
  | arg :: rest =>
    if arg.startsWith "-" ∧ arg ≠ "-" then
      (p.option? allowed arg).bind fun p => arguments? allowed p rest
    else arguments? allowed (p.value arg) rest

/-- The command with a name. The path of a script may not be empty. -/
def command? (name : String) (rest : List String) : Option (Command × Bool) :=
  if name = "replay" then do
    let p ← arguments? ["--strict", "--json"] {} rest
    match p.positional with
    | [script] =>
      if script = "" then none
      else some (.replay script (p.options.contains "--strict"), p.options.contains "--json")
    | _ => none
  else if name = "config" then do
    let p ← arguments? ["--json"] {} rest
    if p.positional = [] then some (.config, p.options.contains "--json") else none
  else none

def parseFrom (p : Arguments) : List String → Option Invocation
  | [] => none
  | arg :: rest =>
    if arg.startsWith "-" then
      let option := if arg = "-v" then "--verbose" else arg
      (p.option? ["--verbose", "--json"] option).bind fun p => parseFrom p rest
    else
      (command? arg rest).map fun (command, json) =>
        { verbose := p.options.contains "--verbose"
          json := json || p.options.contains "--json"
          command }

def parse? (args : List String) : Option Invocation := parseFrom {} args

end Invocation

/-! ## Errors -/

inductive CommandError where
  | load (error : LoadError)
  | scale (error : Timeline.InvalidScale)
  | strict (failed total : Nat)

namespace CommandError

def message : CommandError → String
  | load error => error.message
  | scale _ => "Invalid view.pixels_per_day in replay script"
  | strict failed total => toString failed ++ " of " ++ toString total ++ " step(s) failed"

/-- What lies behind the message, where the library knows it. -/
def cause? : CommandError → Option String
  | scale error => some error.message
  | load _ | strict .. => none

end CommandError

/-! ## Printing -/

inductive Page where
  | nothing
  | data (value : Json)
  | lines (lines : List String)

def Page.text : Page → String
  | nothing => ""
  | data value => value.pretty 0 ++ "\n"
  | lines ls => ofLines ls

structure Ending where
  page : Page := .nothing
  error : Option CommandError := none

def Ending.exitCode (e : Ending) : Nat := if e.error.isSome then 1 else 0

def usageExitCode : Nat := 2

/-! ## Surroundings -/

/-- What a run finds around it. -/
structure Surroundings where
  /-- The directory of the run, as messages name it. -/
  root : String := "."
  projectFile : Source := .absent
  /-- The directory of the user's settings, as messages name it. -/
  userDirectory : String := ""
  userFile : Source := .absent
  /-- The variable that asks for a form of output. -/
  format : Option String := none
  terminal : Bool := false
  clock : Clock := default

/-! ## Settings in effect -/

structure EffectiveSettings where
  editor : EditorSettings
  user : UserSettings
  output : OutputMode

namespace EffectiveSettings

def load (s : Surroundings) (json : Bool) : Except LoadError EffectiveSettings := do
  let editor ← EditorSettings.load s.root s.projectFile
  let user ← UserSettings.load s.userDirectory s.userFile
  .ok { editor, user, output := .resolve json user.output s.format s.terminal }

def toJson (e : EffectiveSettings) : Json :=
  .obj [("editor", e.editor.toJson), ("user", e.user.toJson), ("resolved_output", e.output.name)]

def lines (e : EffectiveSettings) : List String :=
  let truth (b : Bool) := if b then "true" else "false"
  Page.heading "Effective configuration" ++
    [Page.entry "output" e.output.name] ++
    (e.user.output.map (Page.entry "user.output")).toList ++
    ["", "[timeline]", Page.entry "pixels_per_day" (Decimal.text e.editor.pixelsPerDay),
      "", "[hooks]", Page.entry "refresh_parent" (truth e.editor.hooks.refreshParent),
      Page.entry "invalidate_activity" (truth e.editor.hooks.invalidateActivity),
      Page.entry "publish_events" (truth e.editor.hooks.publishEvents),
      "", "[save]", Page.entry "notify_success" (truth e.editor.notifySuccess)]

end EffectiveSettings

/-! ## Commands -/

/-- The form of output. Settings of the user that cannot be read are passed over here. -/
def Surroundings.outputMode (s : Surroundings) (json : Bool) : OutputMode :=
  let user := match UserSettings.load s.userDirectory s.userFile with
    | .ok user => user.output
    | .error _ => none
  .resolve json user s.format s.terminal

def runConfig (s : Surroundings) (mode : OutputMode) : Ending :=
  match EffectiveSettings.load s (mode = .json) with
  | .error error => { error := some (.load error) }
  | .ok settings =>
    { page := match mode with
        | .json => .data settings.toJson
        | .human => .lines settings.lines }

def loadScript (path : String) : Source → Except LoadError Replay.Script
  | .absent | .unreadable => .error (.unreadable path)
  | .text content =>
    match Replay.Script.read? content with
    | some script => .ok script
    | none => .error (.malformed path)

/-- Runs a script; of two things wrong, the script's own comes first, then the settings'. -/
def replayReport (s : Surroundings) (path : String) (file : Source) :
    Except CommandError Replay.Report := do
  let script ← (loadScript path file).mapError .load
  let settings ← (EditorSettings.load s.root s.projectFile).mapError .load
  (Replay.run path script settings s.clock).mapError .scale

/-- Runs a script and prints the report. A strict run fails when a step has failed. -/
def runReplay (s : Surroundings) (mode : OutputMode) (path : String) (file : Source) (strict : Bool) :
    Ending :=
  match replayReport s path file with
  | .error error => { error := some error }
  | .ok report =>
    { page := match mode with
        | .json => .data report.toJson
        | .human => .lines report.lines
      error := if strict ∧ report.failed ≠ 0 then some (.strict report.failed report.steps.length)
        else none }

/-- Runs the command of an invocation; `file` is what is found at the script's path. -/
def runInvocation (s : Surroundings) (file : Source) (inv : Invocation) : Ending :=
  let mode := s.outputMode inv.json
  match inv.command with
  | .config => runConfig s mode
  | .replay script strict => runReplay s mode script file strict

end Draftboard
