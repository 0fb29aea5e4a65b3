import Growth.Shell.Builtin
import Growth.Shell.Reader
import Growth.Shell.Stream

/-! Shells of their own: how they come into being and end, and what they tell the shell that has made
them. They run one after another, although they stand for what goes on at the same time. -/

namespace Growth.Shell

open Act

/-- What runs a command. Something may depend on its status, so that a failure is none. -/
abbrev Runner := (isTested : Bool) → Command → Act Unit

/-- How deep words may be nested. -/
def wordDepth : Nat := 2 ^ 16

/-! ### Texts -/

/-- Tells a fault in a text and stops. -/
def failAt {α : Type} (fault : Fault) : Act α := do
  setShell fun s => { s with line := fault.line }
  fail fault.text

/-- Runs the commands of a text, line by line. -/
def runText (run : Runner) (isTested : Bool) (text : String) : Act Unit := do
  let (_, status) ← Act.again (text.length + 2) (fun (source, _) => do
    match nextLine { source with documents := (← shell).documents } with
    | .error fault => failAt fault
    | .ok (none, source) => return (false, source, (← shell).status)
    | .ok (some found, source) => do
      setShell fun s => { s with documents := source.documents }
      match found with
      | some c => run isTested c
      | none => pure ()
      return (true, source, (← shell).status)) (Source.ofText text.toList [], 0)
  setStatus status

/-! ### Traps -/

/-- Does what the shell does on signals that have reached it. -/
def answerSignals (run : Runner) : Act Unit := do
  let w ← getThe World
  let process := w.shell.process
  let reached := (w.pending.filter fun p => p.1 == process).map Prod.snd
  unless reached.isEmpty do
    set { w with pending := w.pending.filter fun p => p.1 != process }
    for n in reached.mergeSort.eraseReps do
      match (((← getThe World).traps.lookup process).getD []).lookup n with
      | none => pure ()
      | some action => do
        let status := (← shell).status
        runText run false action
        setStatus status

/-- Does what the shell does at its end. -/
def takeLeave (run : Runner) : Act Unit := do
  let w ← getThe World
  let process := w.shell.process
  let traps := (w.traps.lookup process).getD []
  match traps.lookup 0 with
  | none => return
  | some action => do
    set { w with
      traps := (process, traps.filter fun t => t.1 != 0) :: w.traps.filter fun t => t.1 != process }
    let status := w.shell.status
    match (← outcome (runText run false action)) with
    | .ok _ => setStatus status
    | .error (.killed p n) => throw (.killed p n)
    | .error .late => throw .late
    | .error _ => return

/-- Does an act as all that a shell does, up to its end. -/
def whole (run : Runner) (act : Act Unit) : Act Unit := do
  match (← outcome act) with
  | .error (.killed p n) => throw (.killed p n)
  | .error .late => throw .late
  | _ => takeLeave run

/-! ### Children -/

/-- Does an act in a shell of its own and gives how that ends. -/
def childEnd (run : Runner) (act : Act Unit) : Act Close := do
  tickLong
  let w ← getThe World
  let parent := w.shell
  let process := w.fresh
  let ignored := ((w.traps.lookup parent.process).getD []).filter fun t => t.2 == ""
  set { w with
    fresh := process + 1
    alive := process :: w.alive
    traps := (process, ignored) :: w.traps
    shell := { parent with process } }
  let found ← outcome (whole run act)
  let status := (← shell).status
  modifyThe World fun w =>
    { w with
      shell := parent
      alive := w.alive.filter (· != process)
      traps := w.traps.filter fun t => t.1 != process
      pending := w.pending.filter fun p => p.1 != process }
  match found with
  | .ok _ => return .status status
  | .error (.killed p n) => if p == process then return .signal n else throw (.killed p n)
  | .error stop => throw stop

/-- The same for a child that is waited for. What is left of other jobs is not told any more. -/
def inChild (run : Runner) (act : Act Unit) : Act Nat := do
  let close ← childEnd run act
  tell close
  modifyThe World fun w => { w with ended := w.ended.map fun e => (e.1, e.2.1, false) }
  return close.code

/-- What a child writes while it does an act. -/
def writtenBy (run : Runner) (act : Act Unit) : Act (String × Nat) := do
  let size := (← getThe World).channels.size
  let sink ← newChannel (.sink 0 [])
  let status ← inChild run do
    lead 1 (some sink)
    act
  let text := match (← getThe World).channels[sink]? with
    | some (.sink _ texts) => String.join texts.reverse
    | _ => ""
  forgetChannels size
  return (text, status)

/-- What the commands in a word write. -/
def outputOf (run : Runner) : Option Command → Act String
  | none => do
    setShell fun s => { s with innerStatus := 0 }
    return ""
  | some c => do
    let (text, status) ← writtenBy run (run false c)
    setShell fun s => { s with innerStatus := status }
    return String.ofList (text.toList.filter (· != '\x00'))

/-- Runs commands each of which reads what the one before it writes. They begin at the same time. -/
def runPipeline (run : Runner) (isTested : Bool) (cs : List Command) : Act Unit := do
  let size := (← getThe World).channels.size
  let start := (← getThe World).clock
  let mut input : Option String := none
  let mut latest := start
  let mut status := 0
  for (c, n) in cs.zipIdx 1 do
    modifyThe World fun w => { w with clock := start }
    let act : Act Unit := do
      match input with
      | some text => lead 0 (some (← newChannel (.spring text.toList)))
      | none => pure ()
      run isTested c
    if n < cs.length then
      let (text, _) ← writtenBy run act
      input := some text
    else status ← inChild run act
    latest := max latest (← getThe World).clock
  modifyThe World fun w => { w with clock := latest }
  forgetChannels size
  setStatus status

/-! ### Jobs -/

/-- The changes that lead from one disk to another. -/
def Disk.changesTo (before after : Disk) : List (Path × Option (Option String)) :=
  let view (d : Disk) (p : Path) : Option (Option String) :=
    (d.entry? p).map fun
      | .file key => some (d.content key)
      | _ => none
  let paths := ((before.entries ++ after.entries).map Prod.fst).eraseDups
  (paths.filter fun p => view before p != view after p).map fun p => (p, view after p)

/-- Runs a command that is not waited for. What it does before it has to wait for something is done at
once, and the rest when it ends. -/
def runAside (run : Runner) (isTested : Bool) (c : Command) : Act Unit := do
  let w ← getThe World
  let process := w.fresh
  let act : Act Close := childEnd run do
    lead 0 (some (← newChannel (.device .null)))
    run isTested c
  let settled (v : World) : World :=
    { v with
      shell := { w.shell with lastAside := some process, status := 0 }
      alive := w.alive
      traps := w.traps
      isHasty := w.isHasty
      clock := w.clock
      fresh := max v.fresh (process + 1) }
  match act { w with isHasty := true } with
  | (.ok close, v) =>
    let v := settled v
    set { v with ended := (process, close, true) :: v.ended }
  | (.error .late, v) =>
    let v := settled v
    let (found, u) := act { w with isHasty := false }
    let (ends, close, signals) : Option Nat × Close × List (Nat × Nat) := match found with
      | .ok close => (some u.clock, close, [])
      | .error (.killed p n) => (some u.clock, .status 0, [(p, n)])
      | .error _ => (none, .status 0, [])
    let signals := signals ++ u.pending.filter fun p => !w.pending.contains p
    let job : Job := ⟨process, ends, close, v.disk.changesTo u.disk, signals⟩
    set { v with jobs := job :: v.jobs }
  | (.error stop, v) => do
    set (settled v)
    throw stop

end Growth.Shell
