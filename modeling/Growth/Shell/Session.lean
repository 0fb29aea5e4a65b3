import Growth.Shell.Run

/-! A program that is run by a shell of its own, in a directory that holds nothing but the program and
what it writes as errors. -/

namespace Growth.Shell

/-- The directory in which the program runs. -/
def home : Path := ["tmp", "algoscope"]

/-- The name of the program in its directory. -/
def programName : String := "program.py"

/-- The name of the file that holds what is written as errors. -/
def errorsName : String := "errors.log"

/-- The directories that are there. -/
def directories : List Path :=
  [["tmp"], home, ["dev"], ["dev", "fd"], ["bin"], ["sbin"], ["usr"], ["usr", "bin"], ["usr", "sbin"],
    ["usr", "lib"], ["usr", "local"], ["usr", "local", "bin"], ["usr", "local", "sbin"], ["etc"],
    ["home"], ["lib"], ["opt"], ["proc"], ["root"], ["run"], ["srv"], ["sys"], ["var"], ["var", "tmp"]]

/-- The devices that are there. -/
def devices : List (Path × Device) :=
  [(["dev", "null"], .null), (["dev", "zero"], .zero), (["dev", "full"], .full),
    (["dev", "stdin"], .stream 0), (["dev", "stdout"], .stream 1), (["dev", "stderr"], .stream 2)] ++
    (List.range 10).map fun n => (["dev", "fd", toString n], .stream n)

/-- The disk on which a program is to run. No errors have been written. -/
def Disk.holding (program : String) : Disk :=
  let entries := directories.map (·, Entry.directory) ++ devices.map (fun d => (d.1, Entry.device d.2)) ++
    [(home ++ [programName], .file 0), (home ++ [errorsName], .file 1)]
  ⟨entries, [(0, program.toList.toArray), (1, #[])], 2⟩

/-- The shell that is to run a program. It reads nothing, and only what it writes as errors is kept. -/
def firstShell : Shell :=
  { title := programName
    number := firstProcess
    process := firstProcess
    bindings :=
      [("PATH", ⟨some (":".intercalate programPlaces), true, false⟩),
        ("PWD", ⟨some (pathText home), true, false⟩)] ++ ownVariables (firstProcess - 1)
    directory := home
    streams := [(0, 0), (1, 1), (2, 2)] }

/-- The world in which a program is to run for some milliseconds at most. -/
def World.before (program : String) (limit : Nat) : World :=
  { disk := Disk.holding program
    channels := #[.device .null, .device .null, .file 1 0 false]
    clock := 0
    limit := 1000 * limit
    isHasty := false
    jobs := []
    ended := []
    fresh := firstProcess + 1
    traps := []
    pending := []
    alive := [firstProcess]
    shell := firstShell }

/-- How deep commands may be nested. -/
def commandDepth : Nat := 10000

/-- Runs a program for some milliseconds at most: how it ends, if it does, and the world then. -/
def session (program : String) (limit : Nat) : Option Close × World :=
  let run := runCommand commandDepth
  match whole run (runText run false program) (World.before program limit) with
  | (.ok _, w) => (some (.status w.shell.status), w)
  | (.error (.killed _ n), w) => (some (.signal n), w)
  | (.error _, w) => (none, w)

end Growth.Shell
