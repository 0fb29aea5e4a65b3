import Growth.Settings.Basic
import Growth.Shell.Session
import Growth.Text.Blank
import Growth.Text.Utf8
import Growth.Trial

/-! The interpreters that programs can be run with, and how they answer requests: a shell, one that
succeeds and one that fails whatever the program is. There is no other. -/

namespace Growth

/-- An interpreter. -/
inductive Interpreter where
  | shell | success | failure
deriving DecidableEq, Repr

namespace Interpreter

/-- The interpreters by their names. -/
def table : List (String × Interpreter) :=
  [("/bin/sh", shell), ("/usr/bin/sh", shell), ("sh", shell), ("/bin/dash", shell),
    ("/bin/true", success), ("/usr/bin/true", success), ("true", success),
    ("/bin/false", failure), ("/usr/bin/false", failure), ("false", failure)]

/-- A run that a signal ended, in words. -/
def signalText (n : Nat) : String :=
  match Shell.signalNames.find? fun s => s.2 == n with
  | some (name, _) => s!"signal: {n} (SIG{name})"
  | none => s!"signal: {n}"

/-- How a run ended that wrote `errors`. What is written as errors makes a fault of any end. -/
def ending (close : Shell.Close) (errors : List Char) : Ending :=
  if !errors.isEmpty then .fault (String.ofList (Text.trimEnd errors))
  else
    match close with
    | .status 0 => .completed
    | .status n => .fault s!"exit status: {n}"
    | .signal n => .fault (signalText n)

/-- The octets of a text of a shell. -/
def octets (text : String) : List UInt8 :=
  text.toList.map fun c => c.toNat.toUInt8

/-- A text as the text of a shell, in which each octet is a character. -/
def shellText (text : String) : String :=
  String.ofList ((Text.Utf8.encoded text.toList).map fun b => Char.ofNat b.toNat)

/-- The octets of the file that a name leads to. -/
def file (d : Shell.Disk) (name : String) : Except Shell.DiskError (List UInt8) := do
  if name.isEmpty || name.toList.contains '\x00' then throw .denied
  match (← d.find Shell.home (shellText name)).2 with
  | .file key => return octets (d.content key)
  | .directory => throw .isDirectory
  | .device _ => return []

/-- The end of a run, seen from what it has left. -/
def ending? (close : Option Shell.Close) (d : Shell.Disk) : Except RunError Ending :=
  match close, file d Shell.errorsName with
  | none, _ => .ok .timedOut
  | some close, .ok bytes => .ok (ending close (Text.Utf8.lossy bytes))
  | some _, .error _ => .error .noErrors

/-- The files that a run has left, of those asked for. One that is not there is left out. -/
def collected (d : Shell.Disk) : List String → Except RunError (List (String × String))
  | [] => .ok []
  | name :: names =>
    match (file d name).map Text.Utf8.decoded? with
    | .error .missing => collected d names
    | .error _ | .ok none => .error (.unreadable name)
    | .ok (some text) => (collected d names).map ((name, String.ofList text) :: ·)

/-- What a program leaves when an interpreter runs it. The shell knows no way to be kept apart. -/
def effect (i : Interpreter) (s : Settings) (program : String) : Option Shell.Close × Shell.Disk :=
  let text := shellText program
  let disk := Shell.Disk.holding text
  if s.timeout = 0 then (none, disk)
  else
    match i with
    | success => (some (.status 0), disk)
    | failure => (some (.status 1), disk)
    | shell =>
      if s.isolated then
        let complaint := s!"{s.interpreter}: 0: Illegal option -S\n"
        (some (.status 2), disk.setContent 1 complaint)
      else
        let (close, w) := Shell.session text s.timeout
        (close, w.disk)

end Interpreter

/-- How a request is answered under settings. -/
def Settings.reply (s : Settings) (request : Request) : Reply :=
  match Interpreter.table.lookup s.interpreter with
  | none => .error (.noInterpreter s.interpreter)
  | some i =>
    let (close, disk) := i.effect s request.program
    (Interpreter.ending? close disk).bind fun ending =>
      (Interpreter.collected disk request.files).map fun files => ⟨ending, files⟩

end Growth
