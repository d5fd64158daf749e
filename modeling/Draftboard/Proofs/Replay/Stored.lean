import Draftboard.Proofs.Replay.Steps
/-!
# What a run stores

Whatever the server stores during a run is told in the reports: a commit stores one work package and
touches one other at most, a removal takes one attachment away, and nothing else changes anything.
-/

namespace Draftboard.Replay

/-- What a step has changed on the server, going by what is reported of it. -/
def StepResult.Accounts (step : Step) (s s' : Server) : StepResult → Prop
  | .committed id wasNew lockVersion _ => ∃ saved now, s.Stores s' saved now wasNew ∧
      saved.id = id ∧ saved.lockVersion = lockVersion
  | .removed => ∃ id attachment, step = .removeAttachment id attachment ∧ s.Loses s' attachment
  | .failed .. | .modified _ | .cleared | .cancelled | .noChange =>
    s'.packages = s.packages ∧ s'.attachments = s.attachments

def familyAt (lockVersion : Nat) : Fixtures :=
  let subject (text : String) : Attributes := (∅ : Attributes).insert Attribute.subject (.text text)
  let child : Snapshot :=
    { id := { text := "2" }, lockVersion, typeHref := "task", attributes := subject "B" }
  { schemas := [{ typeHref := "task",
                  fields := (∅ : TextMap FieldSchema).insert Attribute.subject { writable := true } }]
    workPackages := [{ id := { text := "1" }, typeHref := "task", attributes := subject "A" },
      child.withParent { text := "1" }] }

def family : Fixtures := familyAt 0

end Draftboard.Replay
