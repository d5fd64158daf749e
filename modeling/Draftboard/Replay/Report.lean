import Draftboard.Replay.Run
import Draftboard.Json.Printer
/-!
# Printing reports

A report as JSON for programs and as text for people.
-/

namespace Draftboard

/-! ## JSON -/

def Notice.toJson : Notice → Json
  | saved id => .obj [("kind", "saved"), ("id", id)]
  | failed id code message =>
    .obj [("kind", "error"), ("id", id), ("code", code), ("message", message)]

instance : ToJson Notice := ⟨Notice.toJson⟩

namespace Replay

def StepResult.fields : StepResult → List (String × Json)
  | committed id wasNew lockVersion changes =>
    [("result", "committed"), ("id", id), ("was_new", wasNew), ("lock_version", lockVersion),
      ("changes", changes)]
  | failed code message => [("result", "failed"), ("code", code), ("message", message)]
  | modified names => [("result", "modified"), ("attributes", names)]
  | cleared => [("result", "cleared")]
  | cancelled => [("result", "cancelled")]
  | noChange => [("result", "no_change")]
  | removed => [("result", "removed")]

/-- The fields of the result follow those of the step; a commit gives its own id once more. -/
def StepReport.toJson (r : StepReport) : Json :=
  let fields : List (String × Json) := [("index", r.index), ("op", r.op), ("id", r.target)]
  .obj (fields ++ r.result.fields)

instance : ToJson StepReport := ⟨StepReport.toJson⟩

def Report.toJson (r : Report) : Json :=
  .obj [("script", r.script), ("steps", r.steps), ("failed", r.failed), ("notifications", r.notices),
    ("events", r.events), ("work_packages", r.workPackages)]

end Replay

/-! ## Text -/

namespace Page

def rule : String := String.ofList (List.replicate 72 '-')

def heading (title : String) : List String := [title, rule]

def entry (name value : String) : String := Text.padRight 16 (name ++ ":") ++ " " ++ value

def ofLines (lines : List String) : String := String.join (lines.map (· ++ "\n"))

end Page

namespace Replay

def StepResult.describe : StepResult → String
  | committed id wasNew lockVersion changes =>
    "committed " ++ id.text ++ (if wasNew then " (created)" else "") ++ " v" ++ toString lockVersion ++
      " [" ++ ", ".intercalate changes.keys ++ "]"
  | failed code message => "FAILED " ++ code ++ ": " ++ message
  | modified names => "modified [" ++ ", ".intercalate names ++ "]"
  | cleared => "cleared"
  | cancelled => "cancelled"
  | noChange => "no change"
  | removed => "removed"

def StepReport.line (r : StepReport) : String :=
  Text.padLeft 3 (toString r.index) ++ "  " ++ Text.padRight 18 r.op ++ " " ++
    Text.padRight 8 r.target.text ++ " " ++ r.result.describe

def workPackageLine (s : Snapshot) : String :=
  Text.padRight 8 s.id.text ++ " v" ++ Text.padRight 4 (toString s.lockVersion) ++ " " ++
    s.subject?.getD ""

def Report.lines (r : Report) : List String :=
  Page.heading ("Replay " ++ r.script) ++ r.steps.map StepReport.line ++
    [Page.rule, Page.entry "steps" (toString r.steps.length),
      Page.entry "failed" (toString r.failed),
      Page.entry "notifications" (toString r.notices.length),
      Page.entry "events" (toString r.events.length)] ++
    (if r.workPackages = [] then []
      else "" :: Page.heading "Work packages" ++ r.workPackages.map workPackageLine)

end Replay

end Draftboard
