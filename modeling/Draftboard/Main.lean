import Std.Time.DateTime.Timestamp
import Draftboard.CommandLine
/-!
# The program

Looks at the files and variables that a command needs, and prints what the command gives back.
-/

namespace Draftboard

/-- What is found at a path; a relative path starts at the directory of the run. -/
def lookAt (path : String) : IO Source := do
  let place := (← IO.currentDir) / path
  if ← place.pathExists then
    try
      return .text (← IO.FS.readFile place)
    catch _ =>
      return .unreadable
  else
    return .absent

def currentClock : IO Clock := do
  let now ← Std.Time.Timestamp.now
  let seconds := now.toSecondsSinceUnixEpoch.val
  return { now := { seconds, nanos := now.val.nano.val.toNat } }

/-- The directory of the user's settings. -/
def userDirectory? : IO (Option String) := do
  match ← IO.getEnv "XDG_CONFIG_HOME" with
  | some directory => if directory.startsWith "/" then return some directory
  | none => pure ()
  return (← IO.getEnv "HOME").map (pathIn · ".config")

def lookAround : IO Surroundings := do
  let root := (← IO.currentDir).toString
  let projectFile ← lookAt (pathIn root ".wpedit/config.toml")
  let directory ← userDirectory?
  let userFile ← match directory with
    | some directory => lookAt (pathIn directory "wpedit/config.toml")
    | none => pure .absent
  return {
    root
    projectFile
    userDirectory := directory.getD ""
    userFile
    format := ← IO.getEnv "FORMAT"
    terminal := ← (← IO.getStdout).isTty
    clock := ← currentClock }

def usage : String :=
  "Usage: wpe [-v|--verbose] [--json] replay <script> [--strict] [--json]\n" ++
    "       wpe [-v|--verbose] [--json] config [--json]"

def printEnding (e : Ending) : IO Unit := do
  IO.print e.page.text
  match e.error with
  | some error =>
    IO.eprintln ("Error: " ++ error.message)
    match error.cause? with
    | some cause => IO.eprintln ("\nCaused by:\n    " ++ cause)
    | none => pure ()
  | none => pure ()

end Draftboard

open Draftboard in
def main (args : List String) : IO UInt32 := do
  match Invocation.parse? args with
  | none =>
    IO.eprintln usage
    return usageExitCode.toUInt32
  | some inv =>
    let around ← lookAround
    let file ← match inv.command with
      | .replay script _ => lookAt script
      | .config => pure .absent
    let ending := runInvocation around file inv
    printEnding ending
    return ending.exitCode.toUInt32
