import Growth.Shell.Command
import Growth.Shell.Disk

/-! What shell commands act on: files, streams, a clock, and the shell itself with its variables. An
act changes them and may stop before its end. -/

namespace Growth.Shell

/-- What a stream leads to. -/
inductive Channel where
  | device (d : Device)
  /-- A content from a place on. -/
  | file (key place : Nat) (append : Bool)
  /-- What has been written for another command, the last text first, and how much it is. -/
  | sink (size : Nat) (texts : List String)
  /-- What is left of what another command wrote. -/
  | spring (rest : List Char)
deriving Repr

/-- A variable. -/
structure Variable where
  value : Option String
  isExported : Bool
  isReadOnly : Bool
deriving Repr

/-- A shell. -/
structure Shell where
  /-- What it calls itself. -/
  title : String
  /-- The number of its process, as its commands know it, and as it is. -/
  number : Nat
  process : Nat
  bindings : List (String × Variable)
  functions : List (String × Command) := []
  arguments : List String := []
  options : List Char := []
  directory : Path
  /-- Channels by the numbers of streams. -/
  streams : List (Nat × Nat)
  /-- The status of the last command. -/
  status : Nat := 0
  /-- The line of the command that runs. -/
  line : Nat := 0
  /-- The built-in command that runs. -/
  running : Option String := none
  /-- How many loops and how many functions run. -/
  loops : Nat := 0
  depth : Nat := 0
  /-- The variables that functions have made their own, with what they were before. -/
  saved : List (List (String × Option Variable)) := []
  /-- The status of the last command in a word. -/
  innerStatus : Nat := 0
  documents : List (Nat × Word) := []
  /-- The process of the last command that was not waited for. -/
  lastAside : Option Nat := none
  /-- The permissions that new files do not get. -/
  mask : String := "0022"
  /-- Where in an argument the next option is to be read. -/
  optionPlace : Nat := 0

/-- The variables that a shell has from the beginning, but for those that it is given. -/
def ownVariables (parent : Nat) : List (String × Variable) :=
  [("IFS", " \t\n"), ("OPTIND", "1"), ("PS1", "# "), ("PS2", "> "), ("PS4", "+ "),
    ("PPID", toString parent)].map fun (name, value) => (name, ⟨some value, false, false⟩)

/-- How a process has ended. -/
inductive Close where
  | status (n : Nat)
  | signal (n : Nat)
deriving DecidableEq, Repr

/-- The status that stands for an end. -/
def Close.code : Close → Nat
  | status n => n
  | signal n => 128 + n

/-- A command that was not waited for and went on after others. What it changes shows when it ends. -/
structure Job where
  process : Nat
  /-- When it ends, if it does, in microseconds. -/
  ends : Option Nat
  close : Close
  changes : List (Path × Option (Option String))
  /-- Signals that it sends. -/
  signals : List (Nat × Nat)

/-- The process of the shell that runs the program. -/
def firstProcess : Nat := 4242

/-- What commands act on. Times are in microseconds. -/
structure World where
  disk : Disk
  channels : Array Channel
  clock : Nat
  limit : Nat
  /-- Nothing may take time now. -/
  isHasty : Bool
  jobs : List Job
  /-- How jobs have ended, and whether that may still be told. -/
  ended : List (Nat × Close × Bool)
  /-- No process has this number or a greater one. -/
  fresh : Nat
  /-- What shells do on signals, by their processes. -/
  traps : List (Nat × List (Nat × String))
  /-- Signals that shells have still to deal with. -/
  pending : List (Nat × Nat)
  /-- Shells that have not ended. -/
  alive : List Nat
  shell : Shell

/-- Why an act stops. -/
inductive Stop where
  /-- The shell ends. -/
  | exit
  /-- The shell ends because of an error. -/
  | fault
  /-- A process is ended by a signal. -/
  | killed (process signal : Nat)
  /-- Time is up. -/
  | late
  /-- Some loops are left. -/
  | left (loops : Nat)
  /-- Some loops are left but for the last, which goes on with its next round. -/
  | skipped (loops : Nat)
  | returned
deriving DecidableEq, Repr

/-- What is done to the world, to get a value. -/
abbrev Act := ExceptT Stop (StateM World)

namespace Act

/-- The shell. -/
def shell : Act Shell := do return (← getThe World).shell

/-- Changes the shell. -/
def setShell (f : Shell → Shell) : Act Unit :=
  modifyThe World fun w => { w with shell := f w.shell }

/-- Sets the status. -/
def setStatus (status : Nat) : Act Unit :=
  setShell fun s => { s with status }

/-- The act, and how it stopped if it did. -/
def outcome {α : Type} (act : Act α) : Act (Except Stop α) := do
  try
    return .ok (← act)
  catch stop => return .error stop

/-- An act that is done again, with what it gave the last time, as long as it says so; less than `fuel`
times. -/
def again {α : Type} : (fuel : Nat) → (α → Act (Bool × α)) → α → Act α
  | 0, _, _ => throw .late
  | fuel + 1, act, a => fun w =>
    match act a w with
    | (.ok (true, a), w) => again fuel act a w
    | (.ok (false, a), w) => (.ok a, w)
    | (.error stop, w) => (.error stop, w)

/-- An act that is followed by another one however it ends. -/
def followed {α : Type} (act : Act α) (last : Act Unit) : Act α := do
  match (← outcome act) with
  | .ok a => do
    last
    return a
  | .error stop => do
    last
    throw stop

end Act

open Act

/-! ### Time -/

/-- The changes of a job are made to the disk. -/
def Disk.withChanges (d : Disk) (changes : List (Path × Option (Option String))) : Disk :=
  changes.foldl (fun d change =>
    match change with
    | (p, none) => d.remove p
    | (p, some none) => d.put p .directory
    | (p, some (some text)) =>
      match d.entry? p with
      | some (.file key) => d.setContent key text
      | _ => (d.create p text).1) d

/-- The signals that stop a process, which does not end then. -/
def stopping : List Nat := [19, 20, 21, 22]

/-- The signals that mean nothing to those who do not expect them. -/
def harmless : List Nat := [17, 18, 23, 28]

/-- A signal reaches a process: a shell deals with it later or is ended by it, as its traps say. Some
signals are ignored by those who say nothing. -/
def signal (process n : Nat) : Act Unit := do
  let w ← getThe World
  if w.alive.contains process then
    match ((w.traps.lookup process).getD []).lookup n with
    | some action =>
      if n == 9 then throw (.killed process n)
      else if n == 19 then throw .late
      else if action != "" then set { w with pending := w.pending ++ [(process, n)] }
    | none =>
      if stopping.contains n then throw .late
      else if !harmless.contains n then throw (.killed process n)
  else if stopping.contains n then
    let stopped (j : Job) : Job := if j.process == process then { j with ends := none } else j
    set { w with jobs := w.jobs.map stopped }
  else if !harmless.contains n then
    set { w with
      jobs := w.jobs.filter fun j => j.process != process
      ended := if w.jobs.any fun j => j.process == process then (process, .signal n, true) :: w.ended
        else w.ended }

/-- Lets jobs that end now or before now have their effect. There are less than `fuel`. -/
def settle : (fuel : Nat) → Act Unit
  | 0 => return
  | fuel + 1 => do
    let w ← getThe World
    let isDue (j : Job) : Bool := j.ends.any fun t => decide (t ≤ w.clock)
    let first := (w.jobs.filter isDue).mergeSort fun a b =>
      decide (a.ends.getD 0 ≤ b.ends.getD 0)
    match first with
    | [] => return
    | j :: _ =>
      set { w with
        disk := w.disk.withChanges j.changes
        jobs := w.jobs.filter fun k => k.process != j.process
        ended := (j.process, j.close, true) :: w.ended }
      for (process, n) in j.signals do signal process n
      settle fuel

/-- Lets time pass up to `time`. On the way, jobs end in their order; less than `fuel`. -/
def passTo (time : Nat) : (fuel : Nat) → Act Unit
  | 0 => return
  | fuel + 1 => do
    let w ← getThe World
    let ends := (w.jobs.filterMap (·.ends)).filter fun t => decide (t ≤ time)
    match ends.min? with
    | some t => do
      if w.limit ≤ max t w.clock then throw .late
      set { w with clock := max t w.clock }
      settle (w.jobs.length + 1)
      passTo time fuel
    | none =>
      if w.limit ≤ time then throw .late
      set { w with clock := max time w.clock }

/-- Lets some microseconds pass. -/
def pass (time : Nat) : Act Unit := do
  let w ← getThe World
  if w.isHasty then throw .late
  passTo (w.clock + time) (w.jobs.length + 1)

/-- The time that a command takes without waiting. -/
def tick : Act Unit := do
  let w ← getThe World
  let clock := w.clock + 10
  if w.limit ≤ clock then throw .late
  set { w with clock }

/-- The time that a command of another program takes. -/
def tickLong : Act Unit := do
  let w ← getThe World
  let clock := w.clock + 500
  if w.limit ≤ clock then throw .late
  set { w with clock }

/-! ### Streams -/

/-- A new channel and its number. -/
def newChannel (c : Channel) : Act Nat := do
  let w ← getThe World
  set { w with channels := w.channels.push c }
  return w.channels.size

/-- Sets a channel. -/
def setChannel (n : Nat) (c : Channel) : Act Unit :=
  modifyThe World fun w => { w with channels := w.channels.setIfInBounds n c }

/-- The channel of a stream. -/
def channel? (stream : Nat) : Act (Option (Nat × Channel)) := do
  let w ← getThe World
  return (w.shell.streams.lookup stream).bind fun n => w.channels[n]?.map fun c => (n, c)

/-- How much may be written for a command that does not read it. -/
def springSize : Nat := 2 ^ 20

/-- Writes a text, if that is possible. -/
def write (stream : Nat) (text : String) : Act Bool := do
  match (← channel? stream) with
  | none | some (_, .device .full) | some (_, .spring _) => return false
  | some (_, .device _) => return true
  | some (n, .file key place append) => do
    let size := (← getThe World).disk.size key
    let place := if append then size else place
    modifyThe World fun w => { w with disk := w.disk.overwrite key place text.toList }
    setChannel n (.file key (place + text.length) append)
    return true
  | some (n, .sink size _) => do
    if springSize < size then throw (.killed (← shell).process 13)
    modifyThe World fun w =>
      { w with
        channels := w.channels.modify n fun
          | .sink size texts => .sink (size + text.length) (text :: texts)
          | c => c }
    return true

/-- All that can be read from a stream; nothing more after that. -/
def readAll (stream : Nat) : Act (Option String) := do
  match (← channel? stream) with
  | some (n, .file key place append) => do
    let cs := (← getThe World).disk.characters key
    setChannel n (.file key cs.size append)
    return some (String.ofList (cs.toList.drop place))
  | some (n, .spring rest) => do
    setChannel n (.spring [])
    return some (String.ofList rest)
  | some (_, .device .zero) | some (_, .device .full) => throw .late
  | some (_, .device _) => return some ""
  | _ => return none

/-- The next line that can be read from a stream, with its end if it has one. -/
def readLine (stream : Nat) : Act (Option String) := do
  match (← channel? stream) with
  | some (n, .file key place append) => do
    let cs := (← getThe World).disk.characters key
    let line := lineAt cs (cs.size + 1) place
    setChannel n (.file key (place + line.length) append)
    return some (String.ofList line)
  | some (n, .spring rest) => do
    let line := rest.take ((rest.takeWhile (· != '\n')).length + 1)
    setChannel n (.spring (rest.drop line.length))
    return some (String.ofList line)
  | some (_, .device _) => return some ""
  | _ => return none

/-- Writes an error of the shell. -/
def complain (text : String) : Act Unit := do
  let s ← shell
  let running := (s.running.map (· ++ ": ")).getD ""
  let _ ← write 2 s!"{s.title}: {s.line}: {running}{text}\n"

/-- Writes an error of the shell and stops. -/
def fail {α : Type} (text : String) : Act α := do
  complain text
  setStatus 2
  throw .fault

/-! ### Variables -/

/-- What is known of a variable. -/
def Shell.known? (s : Shell) (name : String) : Option Variable :=
  s.bindings.lookup name

/-- With something known of a variable. -/
def Shell.setVariable (s : Shell) (name : String) (v : Variable) : Shell :=
  { s with bindings := (name, v) :: s.bindings.filter fun x => x.1 != name }

/-- Without a variable. -/
def Shell.dropVariable (s : Shell) (name : String) : Shell :=
  { s with bindings := s.bindings.filter fun x => x.1 != name }

/-- Gives a variable a value. -/
def assign (name value : String) : Act Unit := do
  let s ← shell
  let v := (s.known? name).getD ⟨none, false, false⟩
  if v.isReadOnly then fail s!"{name}: is read only"
  let isExported := v.isExported || s.options.contains 'a'
  setShell fun s => s.setVariable name { v with value := some value, isExported }

/-- The value of a parameter that stands for one text, if it has one. -/
def Shell.parameter? (s : Shell) (name : String) : Option String :=
  match name with
  | "#" => some (toString s.arguments.length)
  | "0" => some s.title
  | "$" => some (toString s.number)
  | "?" => some (toString s.status)
  | "!" => s.lastAside.map toString
  | "-" => some (String.ofList s.options)
  | name =>
    if name.toList.head?.any Char.isDigit then
      name.toNat?.bind fun n => if n = 0 then some s.title else s.arguments[n - 1]?
    else (s.known? name).bind (·.value)

end Growth.Shell
