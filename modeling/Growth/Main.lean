import Growth.CommandLine
import Growth.Interpreter

/-! The command line run from a terminal. -/

namespace Growth.CommandLine

/-- A file by its name and content, if it can be read. -/
def fileOnDisk (path : String) : IO (Option (String × String)) := do
  try
    return some (path, ← IO.FS.readFile path)
  catch _ =>
    return none

/-- A variable by its name and value, if it is set. -/
def variableSet (name : String) : IO (Option (String × String)) := do
  return (← IO.getEnv name).map (name, ·)

/-- The text on standard input, if it is one. -/
def inputTyped : IO (Option String) := do
  try
    return some (← (← IO.getStdin).readToEnd)
  catch _ =>
    return none

/-- What options read. -/
def Options.surroundings (o : Options) : IO Surroundings := do
  let files ← o.paths.filterMapM fileOnDisk
  let environment ← Settings.variableNames.filterMapM variableSet
  let input ← if o.readsInput then inputTyped else pure (some "")
  return ⟨fun name => environment.lookup name, fun path => files.lookup path, input⟩

/-- The answer to arguments given at a terminal. -/
def answerAtTerminal (arguments : List String) : IO Answer := do
  match Options.ofArguments arguments with
  | .error f => return .ofFault "" f
  | .ok o => return answer Settings.reply (← o.surroundings) arguments

end Growth.CommandLine

/-- Answers the arguments. -/
def main (arguments : List String) : IO UInt32 := do
  let a ← Growth.CommandLine.answerAtTerminal arguments
  (← IO.getStderr).putStr a.errors
  (← IO.getStdout).putStr a.output
  return UInt32.ofNat a.exit
