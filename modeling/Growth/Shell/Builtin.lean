import Growth.Shell.Condition
import Growth.Shell.Expansion
import Growth.Shell.Format

/-! The commands that belong to a shell. They act on the shell itself, and an error in one of them can
end it. -/

namespace Growth.Shell

open Act

/-! ### Writing -/

/-- Writes a text, which has to be possible. -/
def put (text : String) : Act Unit := do
  unless (← write 1 text) do
    let name := (← shell).running.getD ""
    complain s!"{name}: I/O error"
    setStatus 1

/-- Writes arguments with blanks between them. -/
def echo (arguments : List String) : Act Unit := do
  let (arguments, last) : List String × String := match arguments with
    | "-n" :: rest => (rest, "")
    | rest => (rest, "\n")
  let text := " ".intercalate arguments
  let (cs, isEnd) := unescaped (text.length + 1) text.toList
  setStatus 0
  put (String.ofList cs ++ if isEnd then "" else last)

/-- Writes arguments in a format. -/
def printFormatted (arguments : List String) : Act Unit := do
  match if arguments.head? == some "--" then arguments.tail else arguments with
  | [] => fail "usage: printf format [arg ...]"
  | format :: arguments =>
    let (stop, w) := formatted (arguments.length + 1) ⟨[], [], arguments⟩ format.toList
    for text in w.complaints do complain text
    setStatus (if w.complaints.isEmpty then 0 else 1)
    put (String.ofList w.text)
    match stop with
    | some .missingCharacter => fail "missing format character"
    | some (.invalid d) => fail s!"{d}: invalid directive"
    | some .endAsked | none => return

/-- A text between quotes, as a shell would read it. -/
def quotedText (s : String) : String :=
  "'" ++ "'\"'\"'".intercalate (s.splitOn "'") ++ "'"

/-! ### Numbers as arguments -/

/-- The number that an argument is. -/
def numberOf (s : String) : Act Nat := do
  match if s.toList.all Char.isDigit && s != "" then s.toNat? else none with
  | some n => if n < 2 ^ 31 then return n else fail s!"Illegal number: {s}"
  | none => fail s!"Illegal number: {s}"

/-- Ends the shell, with a status if one is given. -/
def exitShell (arguments : List String) : Act Unit := do
  match arguments with
  | s :: _ => setStatus ((← numberOf s) % 256)
  | [] => pure ()
  throw .exit

/-- Ends a function, with a status if one is given. -/
def returnFrom (arguments : List String) : Act Unit := do
  match arguments with
  | s :: _ => setStatus (← numberOf s)
  | [] => pure ()
  throw .returned

/-- Leaves loops, of which one or another number is given. -/
def leave (stop : Nat → Stop) (arguments : List String) : Act Unit := do
  let n ← match arguments with
    | s :: _ => numberOf s
    | [] => pure 1
  if n = 0 then fail "Illegal number: 0"
  setStatus 0
  let loops := (← shell).loops
  if 0 < loops then throw (stop (min n loops))

/-! ### Variables -/

/-- A name and its value, if one is given. -/
def nameAndValue (s : String) : String × Option String :=
  let name := s.toList.takeWhile (· != '=')
  match s.toList.drop name.length with
  | _ :: value => (String.ofList name, some (String.ofList value))
  | [] => (String.ofList name, none)

/-- Refuses what is no name. -/
def checkName (name : String) : Act Unit := do
  unless isName name do fail s!"{name}: bad variable name"

/-- Changes what is known of a variable. -/
def change (name : String) (f : Variable → Variable) : Act Unit :=
  setShell fun s => s.setVariable name (f ((s.known? name).getD ⟨none, false, false⟩))

/-- Sets a property of variables, or tells which have it. -/
def declare (title : String) (has : Variable → Bool) (set : Variable → Variable)
    (arguments : List String) : Act Unit := do
  setStatus 0
  match if arguments.head? == some "-p" then arguments.tail else arguments with
  | [] => do
    let known := ((← shell).bindings.filter fun v => has v.2).mergeSort fun a b =>
      decide (a.1 ≤ b.1)
    for (name, v) in known do
      put (s!"{title} {name}" ++ (v.value.map fun s => "=" ++ quotedText s).getD "" ++ "\n")
  | arguments =>
    for s in arguments do
      let (name, value) := nameAndValue s
      checkName name
      match value with
      | some value => assign name value
      | none => pure ()
      change name set

/-- Makes variables, or functions, unknown. -/
def unset (arguments : List String) : Act Unit := do
  setStatus 0
  let (functions, names) := match arguments with
    | "-f" :: rest => (true, rest)
    | "-v" :: rest => (false, rest)
    | rest => (false, rest)
  for name in names do
    if functions then
      setShell fun s => { s with functions := s.functions.filter fun f => f.1 != name }
    else
      checkName name
      if (((← shell).known? name).map (·.isReadOnly)).getD false then fail s!"{name}: is read only"
      setShell (·.dropVariable name)

/-- Makes variables a function's own. -/
def makeOwn (arguments : List String) : Act Unit := do
  setStatus 0
  if (← shell).depth = 0 then fail "not in a function"
  for s in arguments do
    let (name, value) := nameAndValue s
    checkName name
    let before := (← shell).known? name
    setShell fun s =>
      match s.saved with
      | own :: more =>
        if (own.lookup name).isSome then s else { s with saved := ((name, before) :: own) :: more }
      | [] => s
    match value with
    | some value => assign name value
    | none => pure ()

/-- Letters of options with their names. -/
def optionNames : List (Char × String) :=
  [('e', "errexit"), ('f', "noglob"), ('I', "ignoreeof"), ('i', "interactive"), ('m', "monitor"),
    ('n', "noexec"), ('s', "stdin"), ('x', "xtrace"), ('v', "verbose"), ('V', "vi"), ('E', "emacs"),
    ('C', "noclobber"), ('a', "allexport"), ('b', "notify"), ('u', "nounset"), ('p', "privileged")]

/-- The letters that are set, in the order in which they are told. -/
def ordered (options : List Char) : List Char :=
  (optionNames.map Prod.fst).reverse.filter options.contains

/-- Sets or clears an option. -/
def setOption (isSet : Bool) (c : Char) : Act Unit := do
  if (optionNames.lookup c).isNone then
    let sign := if isSet then '-' else '+'
    fail s!"Illegal option {sign}{c}"
  setShell fun s =>
    { s with
      options := ordered (if isSet then c :: s.options else s.options.filter (· != c)) }

/-- Sets options and arguments from words, which are less than `fuel`. -/
def setFrom : (fuel : Nat) → List String → Act Unit
  | 0, _ => return
  | fuel + 1, arguments => do
    let give (arguments : List String) : Act Unit := setShell fun s => { s with arguments }
    match arguments with
    | [] => return
    | "--" :: rest => give rest
    | "-" :: rest => do
      setShell fun s => { s with options := s.options.filter fun c => c != 'x' && c != 'v' }
      unless rest.isEmpty do give rest
    | s :: rest =>
      match s.toList with
      | sign :: letters =>
        if (sign == '-' || sign == '+') && !letters.isEmpty then
          let isSet := sign == '-'
          if letters == ['o'] then
            match rest with
            | name :: rest =>
              match optionNames.find? fun o => o.2 == name with
              | some o => do
                setOption isSet o.1
                setFrom fuel rest
              | none => fail s!"Illegal option {sign}o {name}"
            | [] => return
          else
            for c in letters do setOption isSet c
            setFrom fuel rest
        else give arguments
      | [] => give arguments

/-- Sets options and arguments, or tells the variables. -/
def setAll (arguments : List String) : Act Unit := do
  setStatus 0
  if arguments.isEmpty then
    let known := (← shell).bindings.mergeSort fun a b => decide (a.1 ≤ b.1)
    for (name, v) in known do
      match v.value with
      | some value => put (name ++ "=" ++ quotedText value ++ "\n")
      | none => pure ()
  else setFrom (arguments.length + 1) arguments

/-- Drops arguments from the front. -/
def shift (arguments : List String) : Act Unit := do
  let n ← match arguments with
    | s :: _ => numberOf s
    | [] => pure 1
  if (← shell).arguments.length < n then fail "can't shift that many"
  setShell fun s => { s with arguments := s.arguments.drop n }
  setStatus 0

/-! ### Directories -/

/-- The text of a path. -/
def pathText (p : Path) : String :=
  "/" ++ "/".intercalate p

/-- Goes to another directory. -/
def changeDirectory (arguments : List String) : Act Unit := do
  let s ← shell
  let value (name : String) : String := ((s.known? name).bind (·.value)).getD ""
  let arguments := arguments.dropWhile fun a => a == "-P" || a == "-L" || a == "--"
  let (target, isTold) := match arguments with
    | [] => (value "HOME", false)
    | "-" :: _ => (value "OLDPWD", true)
    | t :: _ => (t, false)
  setStatus 0
  let target := if target == "" then "." else target
  match (← getThe World).disk.find s.directory target with
  | .ok (path, .directory) => do
    let before := value "PWD"
    setShell fun s => { s with directory := path }
    assign "OLDPWD" before
    assign "PWD" (pathText path)
    if isTold then put (pathText path ++ "\n")
  | _ => fail s!"can't cd to {target}"

/-! ### Reading lines -/

/-- The characters without backslashes, those after one being marked, and whether the last is a
backslash. -/
def withoutBackslashes : List Char → List Marked × Bool
  | [] => ([], false)
  | ['\\'] => ([], true)
  | '\\' :: c :: cs =>
    let (more, goesOn) := withoutBackslashes cs
    ((c, true) :: more, goesOn)
  | c :: cs =>
    let (more, goesOn) := withoutBackslashes cs
    ((c, false) :: more, goesOn)

/-- Reads a line and those that go on from it after a backslash, less than `fuel`; gives its characters,
of which those after a backslash are marked, and whether it had an end. -/
def logicalLine (isRaw : Bool) : (fuel : Nat) → Act (List Marked × Bool)
  | 0 => return ([], false)
  | fuel + 1 => do
    let line := ((← readLine 0).getD "").toList
    let hasEnd := line.getLast? == some '\n'
    let body := if hasEnd then line.dropLast else line
    if isRaw then return (body.map (·, false), hasEnd)
    let (cs, goesOn) := withoutBackslashes body
    if goesOn && hasEnd then
      let (more, hasEnd) ← logicalLine isRaw fuel
      return (cs ++ more, hasEnd)
    return (cs, hasEnd)

/-- The parts of a line for some names. The last of them takes all that is left. -/
def shared (splitters : List Char) : List Marked → List String → List (String × String)
  | _, [] => []
  | cs, names =>
    let splits (m : Marked) : Bool := !m.2 && splitters.contains m.1
    let isBlank (m : Marked) : Bool := splits m && isWhite m.1
    let cs := cs.dropWhile isBlank
    match names with
    | [] => []
    | [name] =>
      let trimmed := (cs.reverse.dropWhile isBlank).reverse
      let first := trimmed.takeWhile fun m => !splits m
      let rest := (trimmed.drop first.length).dropWhile isBlank
      let only := match rest with
        | [m] => splits m
        | _ => false
      [(name, plainText (if only then first else trimmed))]
    | name :: names =>
      let first := cs.takeWhile fun m => !splits m
      let rest := (cs.drop first.length).dropWhile isBlank
      let rest := match rest with
        | m :: more => if splits m then more else rest
        | [] => []
      (name, plainText first) :: shared splitters rest names

/-- Reads a line into variables. -/
def readInto (arguments : List String) : Act Unit := do
  let options := arguments.takeWhile fun a => a.toList.head? == some '-'
  let names := arguments.drop options.length
  if names.isEmpty then fail "arg count"
  for name in names do checkName name
  let (cs, hasEnd) ← logicalLine (options.contains "-r") (2 ^ 20)
  for (name, value) in shared (← shell).splitters cs names do assign name value
  setStatus (if hasEnd then 0 else 1)

/-! ### Signals -/

/-- The names of signals. -/
def signalNames : List (String × Nat) :=
  [("EXIT", 0), ("HUP", 1), ("INT", 2), ("QUIT", 3), ("ILL", 4), ("TRAP", 5), ("ABRT", 6), ("BUS", 7),
    ("FPE", 8), ("KILL", 9), ("USR1", 10), ("SEGV", 11), ("USR2", 12), ("PIPE", 13), ("ALRM", 14),
    ("TERM", 15), ("CHLD", 17), ("CONT", 18), ("STOP", 19), ("TSTP", 20), ("TTIN", 21), ("TTOU", 22),
    ("URG", 23), ("XCPU", 24), ("XFSZ", 25), ("VTALRM", 26), ("PROF", 27), ("WINCH", 28), ("IO", 29),
    ("PWR", 30), ("SYS", 31)]

/-- The number of a signal that is named or given as a number. -/
def signalOf? (s : String) : Option Nat :=
  if s != "" && s.toList.all Char.isDigit then s.toNat?.filter (· < 65)
  else
    let upper := String.ofList (s.toList.map Char.toUpper)
    signalNames.lookup upper

/-- The name of a signal, or else its number. -/
def signalName (n : Nat) : String :=
  match signalNames.find? fun s => s.2 == n with
  | some s => s.1
  | none => toString n

/-- Sets what is done on signals, or tells it. -/
def trap (arguments : List String) : Act Unit := do
  setStatus 0
  let w ← getThe World
  let process := w.shell.process
  let traps := (w.traps.lookup process).getD []
  let setTraps (traps : List (Nat × String)) : Act Unit :=
    modifyThe World fun w =>
      { w with traps := (process, traps) :: w.traps.filter fun t => t.1 != process }
  match if arguments.head? == some "--" then arguments.tail else arguments with
  | [] =>
    for (n, action) in traps.mergeSort fun a b => decide (a.1 ≤ b.1) do
      put s!"trap -- {quotedText action} {signalName n}\n"
  | first :: rest =>
    let (action, names) :=
      if rest.isEmpty || (signalOf? first).isSome then (none, first :: rest)
      else (some first, rest)
    let mut traps := traps
    for name in names do
      match signalOf? name with
      | none =>
        let _ ← write 2 s!"trap: {name}: bad trap\n"
        setStatus 1
        return
      | some n =>
        traps := traps.filter fun t => t.1 != n
        match action with
        | some action => if action != "-" then traps := (n, action) :: traps
        | none => pure ()
        setTraps traps

/-- How signals are sent. -/
def killUsage : String :=
  "Usage: kill [-s sigspec | -signum | -sigspec] [pid | job]... or\nkill -l [exitstatus]"

/-- Sends a signal to a process. -/
def sendTo (n : Nat) (target : String) : Act Unit := do
  let w ← getThe World
  let isBehind := target.toList.head? == some '-'
  let number ← numberOf (if isBehind then String.ofList target.toList.tail else target)
  let isThere := w.alive.contains number || w.jobs.any (·.process == number) ||
    (w.ended.lookup number).isSome
  if isBehind || number = 0 then throw (.killed firstProcess n)
  else if !isThere then
    complain "No such process\n"
    setStatus 1
  else if n != 0 then signal number n

/-- Sends a signal, or tells the names of signals. -/
def kill (arguments : List String) : Act Unit := do
  setStatus 0
  let send (n : Nat) (targets : List String) : Act Unit := do
    if targets.isEmpty then fail killUsage
    for target in targets do sendTo n target
  match arguments with
  | [] => fail killUsage
  | "-l" :: rest =>
    match rest with
    | [] => put "0\n"
    | s :: _ => do
      let n ← numberOf s
      let n := if 128 < n then n - 128 else n
      if 0 < n && n < 65 then put (signalName n ++ "\n")
      else fail s!"invalid signal number or exit status: {s}"
  | "-s" :: name :: targets =>
    match signalOf? name with
    | some n => send n targets
    | none => fail s!"invalid signal number or name: {name}"
  | "--" :: targets => send 15 targets
  | option :: targets =>
    match option.toList with
    | '-' :: cs =>
      match signalOf? (String.ofList cs) with
      | some n => send n targets
      | none =>
        match cs with
        | c :: _ => fail s!"Illegal option -{c}"
        | [] => fail killUsage
    | _ => send 15 (option :: targets)

/-! ### Commands that were not waited for -/

/-- What is said of processes that are ended by signals. -/
def signalTexts : List (Nat × String) :=
  [(1, "Hangup"), (3, "Quit"), (4, "Illegal instruction"), (5, "Trace/breakpoint trap"), (6, "Aborted"),
    (7, "Bus error"), (8, "Floating point exception"), (9, "Killed"), (10, "User defined signal 1"),
    (11, "Segmentation fault"), (12, "User defined signal 2"), (14, "Alarm clock"), (15, "Terminated"),
    (16, "Stack fault"), (24, "CPU time limit exceeded"), (25, "File size limit exceeded"),
    (26, "Virtual timer expired"), (27, "Profiling timer expired"), (29, "I/O possible"),
    (30, "Power failure"), (31, "Bad system call")]

/-- Tells how a process has ended, if a signal has ended it. -/
def tell : Close → Act Unit
  | .status _ => return
  | .signal n =>
    if n == 2 || n == 13 then return
    else do
      let _ ← write 2 ((signalTexts.lookup n).getD s!"Unknown signal {n}" ++ "\n")

/-- Waits for all jobs, or for some of them. -/
def wait (arguments : List String) : Act Unit := do
  setStatus 0
  let waitFor (process : Nat) : Act Unit := do
    let w ← getThe World
    match w.jobs.find? fun j => j.process == process with
    | some j =>
      match j.ends with
      | some t => passTo t (w.jobs.length + 1)
      | none => throw .late
    | none => pure ()
  if arguments.isEmpty then
    for j in (← getThe World).jobs do waitFor j.process
  else
    for s in arguments do
      let number ← numberOf s
      waitFor number
      let w ← getThe World
      match w.ended.lookup number with
      | none => setStatus 127
      | some (close, isNews) => do
        if isNews then tell close
        modifyThe World fun w => { w with ended := (number, close, false) :: w.ended }
        setStatus close.code

/-! ### Further commands -/

/-- Tells or sets which permissions new files do not get. -/
def mask (arguments : List String) : Act Unit := do
  setStatus 0
  match arguments with
  | [] => put ((← shell).mask ++ "\n")
  | "-S" :: _ => do
    let allowed (c : Char) : String :=
      let n := (digit? 8 c).getD 0
      (if n / 4 % 2 = 0 then "r" else "") ++ (if n / 2 % 2 = 0 then "w" else "") ++
        (if n % 2 = 0 then "x" else "")
    let cs := (← shell).mask.toList
    put ("u=" ++ allowed (cs.getD 1 '0') ++ ",g=" ++ allowed (cs.getD 2 '0') ++ ",o=" ++
      allowed (cs.getD 3 '0') ++ "\n")
  | s :: _ =>
    if s.toList.all fun c => (digit? 8 c).isSome then
      let digits := List.replicate (4 - s.length) '0' ++ s.toList
      setShell fun shell => { shell with mask := String.ofList digits }
    else fail s!"Illegal mode: {s}"

/-- Reads options from arguments, one at a time. -/
def nextOption (arguments : List String) : Act Unit := do
  match arguments with
  | letters :: name :: given =>
    let s ← shell
    let words := if given.isEmpty then s.arguments else given
    let value (n : String) : Nat := (((s.known? n).bind (·.value)).bind (·.toNat?)).getD 0
    let index := max 1 (value "OPTIND")
    let place := s.optionPlace
    let word := (words[index - 1]?.getD "").toList
    let finish (name letter : String) (argument : Option String) (index place status : Nat) :
        Act Unit := do
      assign name letter
      match argument with
      | some a => assign "OPTARG" a
      | none => setShell (·.dropVariable "OPTARG")
      assign "OPTIND" (toString index)
      setShell fun s => { s with optionPlace := place }
      setStatus status
    if place = 0 && (word.head? != some '-' || word.length < 2 || words.length < index) then
      finish name "?" none index 0 1
    else if place = 0 && word == ['-', '-'] then finish name "?" none (index + 1) 0 1
    else
      let place := max 1 place
      let c := word.getD place '?'
      let isLast := word.length ≤ place + 1
      let (after, afterPlace) := if isLast then (index + 1, 0) else (index, place + 1)
      let isQuiet := letters.toList.head? == some ':'
      let known := letters.toList.dropWhile fun d => d != c || d == ':'
      match known with
      | [] =>
        if isQuiet then finish name "?" (some (String.ofList [c])) after afterPlace 0
        else
          let _ ← write 2 s!"Illegal option -{c}\n"
          finish name "?" none after afterPlace 0
      | _ :: ':' :: _ =>
        if !isLast then
          finish name (String.ofList [c]) (some (String.ofList (word.drop (place + 1)))) (index + 1) 0 0
        else
          match words[index]? with
          | some a => finish name (String.ofList [c]) (some a) (index + 2) 0 0
          | none =>
            if isQuiet then finish name ":" (some (String.ofList [c])) (index + 1) 0 0
            else
              let _ ← write 2 s!"No arg for -{c} option\n"
              finish name "?" none (index + 1) 0 0
      | _ => finish name (String.ofList [c]) none after afterPlace 0
  | _ => fail "Usage: getopts optstring var [arg...]"

/-- The commands that only need the shell. -/
def builtins : List (String × (List String → Act Unit)) :=
  [(":", fun _ => setStatus 0), ("true", fun _ => setStatus 0), ("false", fun _ => setStatus 1),
    ("echo", echo), ("printf", printFormatted), ("exit", exitShell), ("return", returnFrom),
    ("break", leave .left), ("continue", leave .skipped),
    ("export", declare "export" (·.isExported) fun v => { v with isExported := true }),
    ("readonly", declare "readonly" (·.isReadOnly) fun v => { v with isReadOnly := true }),
    ("unset", unset), ("local", makeOwn), ("set", setAll), ("shift", shift), ("cd", changeDirectory),
    ("chdir", changeDirectory), ("pwd", fun _ => do
      setStatus 0
      put (pathText (← shell).directory ++ "\n")),
    ("read", readInto), ("trap", trap), ("kill", kill), ("wait", wait), ("umask", mask),
    ("getopts", nextOption), ("jobs", fun _ => setStatus 0), ("hash", fun _ => setStatus 0),
    ("ulimit", fun arguments => do
      setStatus 0
      if arguments.isEmpty then put "unlimited\n"),
    ("times", fun _ => do
      setStatus 0
      put "0m0.000000s 0m0.000000s\n0m0.000000s 0m0.000000s\n"),
    ("fg", fun _ => fail "No current job"), ("bg", fun _ => fail "No current job"),
    ("alias", fun _ => setStatus 0), ("unalias", fun _ => setStatus 0),
    ("test", fun arguments => do
      setStatus (if ← condition (arguments.length + 1) arguments then 0 else 1)),
    ("[", fun arguments => do
      if arguments.getLast? != some "]" then fail "missing ]"
      let arguments := arguments.dropLast
      setStatus (if ← condition (arguments.length + 1) arguments then 0 else 1))]

end Growth.Shell
