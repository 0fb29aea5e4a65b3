import Growth.CommandLine
import Growth.Proofs.Analysis

/-! How a command ends is told by its arguments, its input and its settings before any program is
run. Where it fails nothing is run and nothing is put out. -/

namespace Growth.CommandLine

open Code Pseudo

variable {σ : Type}

/-- How a command goes with a runner for its settings. -/
def course (runner : Settings → Runner σ) (state : σ) (s : Surroundings)
    (arguments : List String) : Course σ Answer :=
  match prepare s arguments with
  | .error f => ⟨.ofFault "" f, [], state⟩
  | .ok job => job.answer.course (runner job.settings) state

namespace Answer

end Answer

namespace Job

variable {job : Job} (runner : Runner σ) (state : σ)

section Succeeds

variable (job : Job)

end Succeeds

end Job

/-! ### Commands -/

end Growth.CommandLine
