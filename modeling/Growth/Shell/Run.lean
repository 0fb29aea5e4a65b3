import Growth.Shell.Process
import Growth.Shell.Utility

/-! Running commands. What runs the parts of a command is given to each function that needs it, so
that only the last of them calls itself. -/

namespace Growth.Shell

open Act

/-! ### Names of commands -/

/-- What a command that is no part of a shell is. -/
inductive Program where
  | utility (run : List String → Act Unit)
  | shell

/-- The programs by name. -/
def programs : List (String × Program) :=
  [("sh", .shell), ("dash", .shell)] ++ Utility.utilities.map fun u => (u.1, .utility u.2)

/-- Where programs are. -/
def programPlaces : List String :=
  ["/usr/local/sbin", "/usr/local/bin", "/usr/sbin", "/usr/bin", "/sbin", "/bin"]

/-- Whether programs are in a directory. -/
def holdsPrograms (directory : String) : Bool :=
  directory == "/usr/bin" || directory == "/bin"

/-- The path of a program, if it is one. -/
def Shell.programPath? (s : Shell) (name : String) : Option String :=
  if name.toList.contains '/' then
    (programs.map fun p => p.1).findSome? fun p =>
      if name == "/bin/" ++ p || name == "/usr/bin/" ++ p then some name else none
  else
    let places := (((s.known? "PATH").bind (·.value)).getD "").splitOn ":"
    match places.find? holdsPrograms with
    | some place => if (programs.lookup name).isSome then some (place ++ "/" ++ name) else none
    | none => none

/-- The commands that need what runs commands, which are part of a shell. -/
def runningNames : List String :=
  ["eval", ".", "exec", "command", "type"]

/-- Whether a command is part of a shell. -/
def isBuiltin (name : String) : Bool :=
  runningNames.contains name || (builtins.lookup name).isSome

/-- Whether it is one whose errors end the shell. -/
def isSpecialBuiltin (name : String) : Bool :=
  specialNames.contains name

/-- What a name stands for as a command, in words and in short. -/
def kindOf (name : String) : Act (Option (String × String)) := do
  let w ← getThe World
  let s := w.shell
  if reservedWords.contains name then return some ("a shell keyword", name)
  else if isSpecialBuiltin name then return some ("a special shell builtin", name)
  else if (s.functions.lookup name).isSome then return some ("a shell function", name)
  else if isBuiltin name then return some ("a shell builtin", name)
  else
    match s.programPath? name with
    | some path => return some (path, path)
    | none =>
      let isThere := name.toList.contains '/' && (w.disk.find s.directory name).toOption.isSome
      return if isThere then some (name, name) else none

/-- Tells what names stand for. -/
def tellKinds (names : List String) : Act Unit := do
  setStatus 0
  for name in names do
    match (← kindOf name) with
    | some (kind, _) => put s!"{name} is {kind}\n"
    | none => do
      put s!"{name}: not found\n"
      setStatus 127

/-! ### Functions -/

/-- How deep functions may be nested. -/
def functionDepth : Nat := 1000

/-- Gives variables back what they were before. -/
def restoreVariables (before : List (String × Option Variable)) : Act Unit :=
  setShell fun s =>
    before.foldl (fun s (name, v) =>
      match v with
      | some v => s.setVariable name v
      | none => s.dropVariable name) s

/-- Does an act as a function with arguments. -/
def callWith (arguments : List String) (body : Act Unit) : Act Unit := do
  let before ← shell
  if functionDepth ≤ before.depth then
    fail s!"Maximum function recursion depth ({functionDepth}) reached"
  setShell fun s =>
    { s with
      arguments
      depth := s.depth + 1
      loops := 0
      saved := [] :: s.saved
      optionPlace := 0 }
  let leaveFunction : Act Unit := do
    restoreVariables ((← shell).saved.headD [])
    setShell fun s =>
      { s with
        arguments := before.arguments
        depth := before.depth
        loops := before.loops
        saved := before.saved
        optionPlace := before.optionPlace }
  match (← outcome (followed body leaveFunction)) with
  | .ok _ | .error .returned => return
  | .error stop => throw stop

/-! ### Programs -/

/-- A new shell, which knows what its parent hands on. -/
def Shell.descendant (s : Shell) (title : String) (arguments : List String) : Shell :=
  let handed := s.bindings.filter fun v => v.2.isExported
  { title, arguments
    number := s.process
    process := s.process
    bindings := handed ++ ownVariables s.number
    directory := s.directory
    streams := s.streams
    mask := s.mask }

/-- The options at the beginning of the arguments of a shell, whether its commands are an argument, and
the other arguments. -/
def shellOptions : List String → List Char × Bool × List String
  | [] => ([], false, [])
  | s :: rest =>
    match s.toList with
    | ['-'] | ['-', '-'] => ([], false, rest)
    | '-' :: letters =>
      let (more, isCommand, rest) := shellOptions rest
      (letters.filter (· != 'c') ++ more, letters.contains 'c' || isCommand, rest)
    | _ => ([], false, s :: rest)

/-- Runs a further shell. -/
def runShell (run : Runner) (arguments : List String) : Act Unit := do
  let (options, isCommand, rest) := shellOptions arguments
  let begin (title : String) (arguments : List String) : Act Unit :=
    setShell fun s => s.descendant title arguments
  let go (text : String) : Act Unit := whole run do
    for c in options do setOption true c
    runText run false text
  match isCommand, rest with
  | true, [] => do
    begin "sh" []
    fail "-c requires an argument"
  | true, text :: rest => do
    begin (rest.headD "sh") rest.tail
    go text
  | false, [] => do
    begin "sh" []
    go ((← readAll 0).getD "")
  | false, file :: rest => do
    begin "sh" []
    match (← Utility.contentOf file) with
    | .ok text => do
      begin file rest
      go text
    | .error .isDirectory => setStatus 0
    | .error _ => fail s!"cannot open {file}: No such file"

/-- Runs a program in place of the shell, if there is one of this name. -/
def runProgram (run : Runner) (name : String) (arguments : List String) : Act Unit := do
  let w ← getThe World
  match (w.shell.programPath? name).bind fun path => programs.lookup (Utility.lastStep path) with
  | some (.utility act) => do
    setShell fun s => { s with title := name, running := none }
    act arguments
  | some .shell => runShell run arguments
  | none =>
    let isThere := name.toList.contains '/' && (w.disk.find w.shell.directory name).toOption.isSome
    complain (if isThere then s!"{name}: Permission denied" else s!"{name}: not found")
    setStatus (if isThere then 126 else 127)

/-- Whether there is a program of this name. -/
def isProgram (name : String) : Act Bool := do
  return ((← shell).programPath? name).isSome

/-! ### Commands that run commands -/

/-- Ends the shell, after a program has run in its place. -/
def become (run : Runner) (name : String) (arguments : List String) : Act Unit := do
  if (← isProgram name) then
    tickLong
    modifyThe World fun w =>
      let process := w.shell.process
      let ignored := ((w.traps.lookup process).getD []).filter fun t => t.2 == ""
      { w with traps := (process, ignored) :: w.traps.filter fun t => t.1 != process }
  runProgram run name arguments
  throw .exit

/-- Runs the commands of a file in this shell. -/
def runFile (run : Runner) (file : String) : Act Unit := do
  let isPath := file.toList.contains '/'
  match (← Utility.lookUp file) with
  | .ok (_, .directory) => setStatus 0
  | .ok _ =>
    if !isPath then fail s!"{file}: not found"
    match (← Utility.contentOf file) with
    | .error _ => fail s!"cannot open {file}: No such file"
    | .ok text => do
      setShell fun s => { s with running := some file }
      match (← outcome (runText run false text)) with
      | .ok _ | .error .returned => return
      | .error stop => throw stop
  | .error _ =>
    if isPath then fail s!"cannot open {file}: No such file" else fail s!"{file}: not found"

/-- Does an act as a command that is part of the shell. An error in it ends the shell or just the
command. -/
def asBuiltin (isSpecial : Bool) (name : String) (act : Act Unit) : Act Unit := do
  let before := (← shell).running
  setShell fun s => { s with running := some name }
  let back : Act Unit := setShell fun s => { s with running := before }
  match (← outcome (followed act back)) with
  | .ok _ => return
  | .error .fault => if isSpecial then throw .fault
  | .error stop => throw stop

mutual

/-- Runs a command that is part of the shell; commands that name commands are nested less than `fuel`
deep. -/
def runBuiltin (run : Runner) (isTested : Bool) :
    (fuel : Nat) → String → List String → Act Unit
  | 0, _, _ => throw .late
  | fuel + 1, name, arguments =>
    match name, arguments with
    | "eval", [] => setStatus 0
    | "eval", arguments => runText run isTested (" ".intercalate arguments)
    | ".", [] => setStatus 0
    | ".", file :: _ => runFile run file
    | "exec", [] => setStatus 0
    | "exec", name :: arguments => become run name arguments
    | "type", names => tellKinds names
    | "command", arguments => runNamed run isTested fuel arguments
    | name, arguments =>
      match builtins.lookup name with
      | some act => act arguments
      | none => return

/-- Runs a command that arguments name, which is no function, or tells what it is. -/
def runNamed (run : Runner) (isTested : Bool) : (fuel : Nat) → List String → Act Unit
  | 0, _ => throw .late
  | fuel + 1, arguments => do
    match arguments with
    | [] => setStatus 0
    | "-v" :: name :: _ => do
      match (← kindOf name) with
      | some (_, short) => do
        setStatus 0
        put (short ++ "\n")
      | none => setStatus 127
    | "-V" :: name :: _ =>
      match (← kindOf name) with
      | some (kind, _) => do
        setStatus 0
        let isPath := kind.toList.head? == some '/' && !name.toList.contains '/'
        put (s!"{name} is " ++ (if isPath then "a tracked alias for " else "") ++ kind ++ "\n")
      | none => do
        put s!"{name}: not found\n"
        setStatus 127
    | "-v" :: [] | "-V" :: [] => setStatus 0
    | "-p" :: rest | "--" :: rest => runNamed run isTested fuel rest
    | name :: arguments =>
      if isBuiltin name then
        asBuiltin true name (runBuiltin run isTested fuel name arguments)
      else do
        setShell fun s => { s with running := none }
        let known ← isProgram name
        if known then setStatus (← inChild run (runProgram run name arguments))
        else runProgram run name arguments

end

/-! ### Simple commands -/

/-- Whether assignments may be the arguments of a command. -/
def takesAssignments (name : String) : Bool :=
  name == "export" || name == "readonly" || name == "local"

/-- The words that the words of a command stand for. -/
def argumentsOf (output : Option Command → Act String) (words : List Word) : Act (List String) := do
  let mut found : List String := []
  for word in words do
    let command := if found.head? == some "command" then found[1]? else found.head?
    match if command.any takesAssignments then assignmentIn? word else none with
    | some (name, value) => do
      let text ← expandedText output wordDepth value
      found := found ++ [name ++ "=" ++ text]
    | none => do
      let more ← expanded output wordDepth [word]
      found := found ++ more
  return found

/-- Makes assignments, and gives them as words. -/
def assignAll (output : Option Command → Act String) (isHanded : Bool)
    (assignments : List (String × Word)) : Act (List String) :=
  assignments.mapM fun (name, value) => do
    let text ← expandedText output wordDepth value
    assign name text
    if isHanded then change name fun v => { v with isExported := true }
    return name ++ "=" ++ text

/-- Shows a command, on the channel that a stream led to. -/
def showCommand (channel : Option Nat) (words : List String) : Act Unit := do
  let s ← shell
  if s.options.contains 'x' then
    let start := ((s.known? "PS4").bind (·.value)).getD ""
    lead 2 channel
    let _ ← write 2 (start ++ " ".intercalate words ++ "\n")
    lead 2 (s.streams.lookup 2)

/-- Runs a command that words name. -/
def runWords (run : Runner) (isTested : Bool) (words : List String) : Act Unit := do
  match words with
  | [] => setStatus (← shell).innerStatus
  | name :: arguments =>
    match (← shell).functions.lookup name with
    | some body => callWith arguments (run isTested body)
    | none =>
      if isBuiltin name then
        asBuiltin (isSpecialBuiltin name) name (runBuiltin run isTested (arguments.length + 3) name arguments)
      else if (← isProgram name) then
        setStatus (← inChild run (runProgram run name arguments))
      else runProgram run name arguments

/-- Runs a simple command. Its assignments last if it is part of the shell in a special way, or if there
is nothing but assignments. -/
def runSimple (run : Runner) (isTested : Bool) (assignments : List (String × Word))
    (words : List Word) (redirections : List Redirection) : Act Unit := do
  tick
  setShell fun s => { s with innerStatus := 0 }
  let output := outputOf run
  let words ← argumentsOf output words
  let name := words.headD ""
  let isSpecial := isSpecialBuiltin name
  let lasts := words.isEmpty || isSpecial
  let errors := (← shell).streams.lookup 2
  let routes ← redirections.mapM (routeOf output wordDepth)
  let act : Act Unit := do
    let before ← shell
    let names := assignments.map Prod.fst
    let old := names.map fun n => (n, before.known? n)
    let shown ← assignAll output (!lasts || name == "exec") assignments
    showCommand errors (shown ++ words)
    let back : Act Unit := if lasts then pure () else restoreVariables old
    followed (runWords run isTested words) back
  if name == "exec" then
    if (← takeAll routes) then act else throw .fault
  else if routes.isEmpty then act
  else if !(← along routes act) && isSpecial then throw .fault

/-! ### Compound commands -/

/-- How a loop goes on after a part of it. -/
inductive Turn where
  | same
  | next
  | leave
deriving DecidableEq, Repr

/-- Does a part of a loop. -/
def turn (act : Act Unit) : Act Turn := do
  match (← outcome act) with
  | .ok _ => return .same
  | .error (.left n) => if 1 < n then throw (.left (n - 1)) else return .leave
  | .error (.skipped n) => if 1 < n then throw (.skipped (n - 1)) else return .next
  | .error stop => throw stop

/-- Does rounds of a loop, each with the status of the one before it, as long as they say so. -/
def rounds {α : Type} (fuel : Nat) (start : α) (round : α → Nat → Act (Bool × α × Nat)) :
    Act Unit := do
  let loops := (← shell).loops
  setShell fun s => { s with loops := loops + 1 }
  let all : Act Unit := do
    let (_, status) ← Act.again fuel (fun (a, status) => round a status) (start, 0)
    setStatus status
  followed all (setShell fun s => { s with loops })

/-- Runs a body again and again. -/
def runLoop (run : Runner) (isTested untilSuccess : Bool) (test body : Command) : Act Unit :=
  rounds (2 ^ 62) () fun _ last => do
    match (← turn (run true test)) with
    | .leave => return (false, (), last)
    | .next => return (true, (), last)
    | .same =>
      if ((← shell).status == 0) == untilSuccess then return (false, (), last)
      let t ← turn (run isTested body)
      return (t != .leave, (), (← shell).status)

/-- Runs a body for each of some words. -/
def runEach (run : Runner) (isTested : Bool) (name : String) (words : List Word) (body : Command) :
    Act Unit := do
  let found ← expanded (outputOf run) wordDepth words
  rounds (found.length + 1) found fun rest last => do
    match rest with
    | [] => return (false, [], last)
    | w :: rest => do
      assign name w
      let t ← turn (run isTested body)
      return (t != .leave, rest, (← shell).status)

/-- Whether a text matches one of some patterns. -/
def matchesAny (output : Option Command → Act String) (text : String) : List Word → Act Bool
  | [] => return false
  | w :: ws => do
    let pattern := patternOf (markedOf (← itemsOfWord output wordDepth w))
    if Pattern.accepts pattern text.toList then return true else matchesAny output text ws

/-- Runs the body of the first entry that a text matches. -/
def runChoice (run : Runner) (isTested : Bool) (text : String) :
    List (List Word × Option Command) → Act Unit
  | [] => setStatus 0
  | (patterns, body) :: entries => do
    if (← matchesAny (outputOf run) text patterns) then
      match body with
      | some c => run isTested c
      | none => setStatus 0
    else runChoice run isTested text entries

/-- Runs a command with redirections and says whether these could not be made. -/
def runRedirected (run : Runner) (isTested : Bool) (c : Command) (redirections : List Redirection) :
    Act Bool := do
  let routes ← redirections.mapM (routeOf (outputOf run) wordDepth)
  return !(← along routes (run isTested c))

/-- Runs a command by its parts and says whether its failure ends a shell that is told to end then. -/
def runParts (run : Runner) (isTested : Bool) : Command → Act Bool
  | .simple line assignments words redirections => do
    setShell fun s => { s with line }
    runSimple run isTested assignments words redirections
    return true
  | .negated c => do
    run true c
    setStatus (if (← shell).status = 0 then 1 else 0)
    return false
  | .both a b => do
    run true a
    if (← shell).status = 0 then run isTested b
    return false
  | .either a b => do
    run true a
    if (← shell).status != 0 then run isTested b
    return false
  | .sequence a b => do
    run isTested a
    run isTested b
    return false
  | .pipeline cs => do
    runPipeline run isTested cs
    return true
  | .aside c => do
    runAside run isTested c
    return true
  | .apart c => do
    setStatus (← inChild run (run isTested c))
    return true
  | .branch test body other => do
    run true test
    if (← shell).status = 0 then run isTested body
    else
      match other with
      | some c => run isTested c
      | none => setStatus 0
    return false
  | .loop untilSuccess test body => do
    runLoop run isTested untilSuccess test body
    return false
  | .each line name words body => do
    setShell fun s => { s with line }
    runEach run isTested name words body
    return false
  | .choice line word entries => do
    setShell fun s => { s with line }
    let text ← expandedText (outputOf run) wordDepth word
    runChoice run isTested text entries
    return false
  | .function name body => do
    setShell fun s =>
      { s with functions := (name, body) :: s.functions.filter (·.1 != name), status := 0 }
    return false
  | .redirected line c redirections => do
    setShell fun s => { s with line }
    runRedirected run isTested c redirections

/-- Runs a command. Commands are nested less than `fuel` deep; a shell that nests them deeper has no room
and ends by a signal. -/
def runCommand : (fuel : Nat) → Runner
  | 0 => fun _ _ => do throw (.killed (← shell).process 11)
  | fuel + 1 => fun isTested c => do
    let run := runCommand fuel
    let isChecked ← runParts run isTested c
    answerSignals run
    let s ← shell
    if isChecked && !isTested && s.status != 0 && s.options.contains 'e' then throw .exit

end Growth.Shell
