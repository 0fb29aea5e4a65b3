import Growth.Shell.Expansion

/-! Redirections: where the streams of a command lead while it runs. -/

namespace Growth.Shell

open Act

/-- Where a stream is to lead, once the words are expanded. -/
inductive Route where
  | file (how : Opening) (target : String)
  | copy (source : Nat)
  | closed
  | text (s : String)
deriving Repr

/-- Where a redirection leads a stream. -/
def routeOf (output : Option Command → Act String) (fuel : Nat) : Redirection → Act (Nat × Route)
  | .file stream how target => do return (stream, .file how (← expandedText output fuel target))
  | .copy stream source => do
    match (← expandedText output fuel source).toList with
    | ['-'] => return (stream, .closed)
    | [c] =>
      if c.isDigit then return (stream, .copy (c.toNat - '0'.toNat))
      else fail "Syntax error: Bad fd number"
    | _ => fail "Syntax error: Bad fd number"
  | .document stream key => do
    let word := ((← shell).documents.lookup key).getD []
    return (stream, .text (textOf (← itemsOf output fuel false word)))

/-- What is said of a file that cannot be opened. -/
def refusal (how : Opening) (target : String) (e : DiskError) : String :=
  let isLost := e == .missing || e == .notDirectory
  match how with
  | .reading => s!"cannot open {target}: " ++ if isLost then "No such file" else e.message
  | _ => s!"cannot create {target}: " ++ if isLost then "Directory nonexistent" else e.message

/-- Opens something at a path: the number of a channel, which is new but where a stream is meant that
leads to no file. -/
def openEntry (how : Opening) (path : Path) : Act (Except DiskError Nat) := do
  let w ← getThe World
  let content (key : Nat) : Act (Except DiskError Nat) := do
    if how == .writing then
      modifyThe World fun w => { w with disk := w.disk.setContent key "" }
    return .ok (← newChannel (.file key 0 (how == .appending)))
  match w.disk.entry? path with
  | some .directory =>
    if how == .reading then return .ok (← newChannel (.device .null)) else return .error .isDirectory
  | some (.file key) => content key
  | some (.device (.stream n)) => do
    match (← channel? n) with
    | none => return .error .missing
    | some (_, .file key ..) => content key
    | some (number, _) => return .ok number
  | some (.device d) => return .ok (← newChannel (.device d))
  | none =>
    if how == .reading || !w.disk.isDirectory path.dropLast then return .error .missing
    let (disk, key) := w.disk.create path ""
    set { w with disk }
    content key

/-- Opens a file. -/
def openFile (how : Opening) (target : String) : Act (Except DiskError Nat) := do
  let w ← getThe World
  match w.disk.locate w.shell.directory target with
  | .error e => return .error e
  | .ok path =>
    let isKept := w.shell.options.contains 'C' && how == .writing
    match isKept, w.disk.entry? path with
    | true, some (.file _) => return .error .taken
    | _, _ => openEntry how path

/-- Lets a stream lead to a channel, or nowhere. -/
def lead (stream : Nat) (channel : Option Nat) : Act Unit :=
  setShell fun s =>
    let others := s.streams.filter fun x => x.1 != stream
    { s with streams := (channel.toList.map fun n => (stream, n)) ++ others }

/-- Takes a route, if that can be done. -/
def take (stream : Nat) : Route → Act Bool
  | .closed => do
    lead stream none
    return true
  | .text s => do
    lead stream (some (← newChannel (.spring s.toList)))
    return true
  | .copy source => do
    match (← shell).streams.lookup source with
    | some n => do
      lead stream (some n)
      return true
    | none => do
      complain s!"{source}: Bad file descriptor"
      return false
  | .file how target => do
    match (← openFile how target) with
    | .ok n => do
      lead stream (some n)
      return true
    | .error e => do
      complain (refusal how target e)
      return false

/-- Takes some routes, up to the first that cannot be taken. -/
def takeAll : List (Nat × Route) → Act Bool
  | [] => return true
  | (stream, route) :: routes => do
    if (← take stream route) then takeAll routes
    else
      setStatus 2
      return false

/-- Forgets the channels from number `size` on that no stream of the shell leads to. -/
def forgetChannels (size : Nat) : Act Unit :=
  modifyThe World fun w =>
    let size := (w.shell.streams.map fun x => x.2 + 1).foldl max size
    { w with channels := w.channels.take size }

/-- Does an act while some routes are taken, if that can be done. Afterwards their streams lead where
they led before. Says whether the routes could be taken. -/
def along (routes : List (Nat × Route)) (act : Act Unit) : Act Bool := do
  let streams := (← shell).streams
  let size := (← getThe World).channels.size
  let back : Act Unit := do
    for (stream, _) in routes do lead stream (streams.lookup stream)
    forgetChannels size
  let both : Act Bool := do
    let taken ← takeAll routes
    if taken then act
    return taken
  followed both back

end Growth.Shell
