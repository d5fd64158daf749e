import Draftboard.Proofs.Replay.Stored
/-!
# Complete reports

A report has an entry for each step of its script, and lists all work packages that the server has in
the end. The list is made from the ids of the fixtures and of the commits that were reported, so it is
complete because no step stores a work package without reporting its commit.
-/

namespace Draftboard

namespace Server

end Server

namespace Replay

def StepResult.committedId? : StepResult → Option PackageId
  | committed id .. => some id
  | failed .. | modified _ | cleared | cancelled | noChange | removed => none

theorem StepResult.Accounts.isSome_stored? {step : Step} {s s' : Server} {result : StepResult}
    (h : result.Accounts step s s') (id : PackageId) :
    (s'.stored? id).isSome ↔ (s.stored? id).isSome ∨ result.committedId? = some id := by
  have hsame : s'.packages = s.packages → (s'.stored? id = s.stored? id) := congrArg (·[id]?)
  cases result with
  | committed reported wasNew lockVersion changes =>
    obtain ⟨saved, now, hstores, rfl, -⟩ := h
    simpa [committedId?] using hstores.isSome_stored? id
  | removed =>
    obtain ⟨_, _, -, hloses⟩ := h
    simp [hsame hloses.packages, committedId?]
  | failed | modified | cleared | cancelled | noChange => simp [hsame h.1, committedId?]

namespace Session

end Session

/-! ## Reports -/

end Replay

end Draftboard
