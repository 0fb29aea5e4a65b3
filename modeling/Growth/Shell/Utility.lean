import Growth.Shell.Builtin

/-! The commands that are programs of their own and act on files and texts. -/

namespace Growth.Shell.Utility

-- Sums are taken over the zero of the core library, whichever other instances are in scope.
attribute [local instance (high)] Zero.ofOfNat0

open Act

/-! ### Arguments and files -/

/-- Writes an error of a program, after which it has failed. -/
def objectWith (status : Nat) (program text : String) : Act Unit := do
  let _ ← write 2 s!"{program}: {text}\n"
  setStatus status

/-- The same with the status for most failures. -/
def object : String → String → Act Unit := objectWith 1

/-- The same, with a hint at where more is said. -/
def objectAndAdvise (program text : String) : Act Unit :=
  object program s!"{text}\nTry '{program} --help' for more information."

/-- Tells that arguments are missing. -/
def objectToNothing (program : String) : Act Unit :=
  objectAndAdvise program "missing operand"

/-- The letters of options at the beginning of arguments, and the other arguments. -/
def optionsOf (arguments : List String) : List Char × List String :=
  let isOption (s : String) : Bool := s.toList.head? == some '-' && s != "-"
  let (options, rest) := (arguments.takeWhile (· != "--")).partition isOption
  let after := (arguments.dropWhile (· != "--")).tail
  (options.flatMap fun s => s.toList.tail, rest ++ after)

/-- What a text leads to. -/
def lookUp (text : String) : Act (Except DiskError (Path × Entry)) := do
  let w ← getThe World
  return w.disk.find w.shell.directory text

/-- Where a text leads. Nothing need be there. -/
def placeOf (text : String) : Act (Except DiskError Path) := do
  let w ← getThe World
  return w.disk.locate w.shell.directory text

/-- Changes the disk. -/
def setDisk (f : Disk → Disk) : Act Unit :=
  modifyThe World fun w => { w with disk := f w.disk }

/-- All that can be read from a file, or from the stream that is read where a minus stands for it. -/
def contentOf (text : String) : Act (Except DiskError String) := do
  if text == "-" then return .ok ((← readAll 0).getD "")
  match (← lookUp text) with
  | .error e => return .error e
  | .ok (_, .directory) => return .error .isDirectory
  | .ok (_, .file key) => return .ok ((← getThe World).disk.content key)
  | .ok (_, .device .null) => return .ok ""
  | .ok (_, .device .zero) | .ok (_, .device .full) => throw .late
  | .ok (_, .device (.stream n)) => return .ok ((← readAll n).getD "")

/-- Writes a file, which need not be there yet. -/
def setContentOf (text content : String) : Act (Except DiskError Unit) := do
  match (← placeOf text) with
  | .error e => return .error e
  | .ok path => do
    let d := (← getThe World).disk
    match d.entry? path with
    | some .directory => return .error .isDirectory
    | some (.file key) => setDisk (·.setContent key content)
    | some (.device _) => pure ()
    | none =>
      if !d.isDirectory path.dropLast then return .error .missing
      setDisk fun d => (d.create path content).1
    return .ok ()

/-- The name at the end of a path. -/
def lastStep (text : String) : String :=
  (((text.splitOn "/").filter (· != "")).getLast?).getD "/"

/-- The contents of files, or of what is read if none is named, with their names. What cannot be read is
told. -/
def contentsOf (program : String) (files : List String) : Act (List (String × String)) := do
  setStatus 0
  let found ← (if files.isEmpty then ["-"] else files).mapM fun file => do
    match (← contentOf file) with
    | .ok text => return some (file, text)
    | .error .isDirectory =>
      object program s!"{file}: Is a directory"
      return none
    | .error e =>
      object program s!"{file}: {e.message}"
      return none
  return found.filterMap id

/-- The lines of a text, each with its end if it has one. -/
def linesOf (text : String) : List String :=
  let parts := text.splitOn "\n"
  let whole := parts.dropLast.map (· ++ "\n")
  match parts.getLast? with
  | some last => if last == "" then whole else whole ++ [last]
  | none => whole

/-- The lines of a text without their ends. -/
def bareLinesOf (text : String) : List String :=
  (linesOf text).map fun line =>
    if line.toList.getLast? == some '\n' then String.ofList line.toList.dropLast else line

/-! ### Files -/

/-- Writes the contents of files. -/
def cat (arguments : List String) : Act Unit := do
  let (_, files) := optionsOf arguments
  setStatus 0
  for file in if files.isEmpty then ["-"] else files do
    match (← contentOf file) with
    | .ok text => put text
    | .error e => object "cat" s!"{file}: {e.message}"

/-- Tells the names in directories. -/
def list (arguments : List String) : Act Unit := do
  let (options, files) := optionsOf arguments
  setStatus 0
  let d := (← getThe World).disk
  let isShown (name : String) : Bool :=
    options.contains 'a' || options.contains 'A' || name.toList.head? != some '.'
  let hidden := if options.contains 'a' then [".", ".."] else []
  let lines (names : List String) : String := String.join (names.map (· ++ "\n"))
  let files := if files.isEmpty then ["."] else files.mergeSort fun a b => decide (a ≤ b)
  let mut plain : List String := []
  let mut directories : List (String × Path) := []
  for file in files do
    match (← lookUp file) with
    | .error e => objectWith 2 "ls" s!"cannot access '{file}': {e.message}"
    | .ok (path, .directory) =>
      if options.contains 'd' then plain := plain ++ [file]
      else directories := directories ++ [(file, path)]
    | .ok _ => plain := plain ++ [file]
  put (lines plain)
  let isSingle := files.length == 1
  let mut isFirst := plain.isEmpty
  for (file, path) in directories do
    unless isSingle do put ((if isFirst then "" else "\n") ++ file ++ ":\n")
    isFirst := false
    put (lines (hidden ++ (d.names path).filter isShown))

/-- Makes directories. -/
def makeDirectories (arguments : List String) : Act Unit := do
  let (options, files) := optionsOf arguments
  setStatus 0
  if files.isEmpty then objectToNothing "mkdir"
  for file in files do
    let steps := (file.splitOn "/").filter (· != "")
    let start := if file.toList.head? == some '/' then "/" else ""
    let parts := if options.contains 'p' then
        (List.range steps.length).map fun n => start ++ "/".intercalate (steps.take (n + 1))
      else [start ++ "/".intercalate steps]
    for part in parts do
      let failed (e : DiskError) : Act Unit :=
        object "mkdir" s!"cannot create directory '{file}': {e.message}"
      match (← placeOf part) with
      | .error e => failed e
      | .ok path => do
        let d := (← getThe World).disk
        match d.entry? path with
        | some .directory => unless options.contains 'p' do failed .taken
        | some _ => failed .taken
        | none =>
          if d.isDirectory path.dropLast then setDisk (·.put path .directory)
          else failed .missing

/-- Removes empty directories. -/
def removeDirectories (arguments : List String) : Act Unit := do
  let (_, files) := optionsOf arguments
  setStatus 0
  if files.isEmpty then objectToNothing "rmdir"
  for file in files do
    let failed (e : DiskError) : Act Unit :=
      object "rmdir" s!"failed to remove '{file}': {e.message}"
    match (← lookUp file) with
    | .error e => failed e
    | .ok (path, .directory) => do
      if ((← getThe World).disk.names path).isEmpty then setDisk (·.remove path)
      else failed .notEmpty
    | .ok _ => failed .notDirectory

/-- Removes files, and directories if so told. -/
def remove (arguments : List String) : Act Unit := do
  let (options, files) := optionsOf arguments
  let isDeep := options.contains 'r' || options.contains 'R'
  let isForced := options.contains 'f'
  setStatus 0
  if files.isEmpty && !isForced then objectToNothing "rm"
  for file in files do
    match (← lookUp file) with
    | .error e =>
      unless isForced do object "rm" s!"cannot remove '{file}': {e.message}"
    | .ok (path, .directory) =>
      if isDeep then setDisk (·.remove path)
      else if options.contains 'd' && ((← getThe World).disk.names path).isEmpty then
        setDisk (·.remove path)
      else object "rm" s!"cannot remove '{file}': Is a directory"
    | .ok (path, _) => setDisk (·.remove path)

/-- Makes empty files. -/
def touch (arguments : List String) : Act Unit := do
  let (_, files) := optionsOf arguments
  setStatus 0
  if files.isEmpty then objectAndAdvise "touch" "missing file operand"
  for file in files do
    match (← lookUp file) with
    | .ok _ => pure ()
    | .error _ =>
      match (← setContentOf file "") with
      | .ok _ => pure ()
      | .error e => object "touch" s!"cannot touch '{file}': {e.message}"

/-- Where something with the name of `source` goes if it is to go to `target`. -/
def goalOf (source target : String) : Act (Except DiskError Path) := do
  match (← lookUp target) with
  | .ok (path, .directory) => return .ok (path ++ [lastStep source])
  | .ok (path, _) => return .ok path
  | .error _ => placeOf target

/-- Copies or moves files. -/
def transfer (isMove : Bool) (arguments : List String) : Act Unit := do
  let program := if isMove then "mv" else "cp"
  let (options, files) := optionsOf arguments
  let isDeep := options.contains 'r' || options.contains 'R' || options.contains 'a'
  setStatus 0
  match files.getLast?, files.dropLast with
  | none, _ => objectAndAdvise program "missing file operand"
  | some only, [] => objectAndAdvise program s!"missing destination file operand after '{only}'"
  | some target, sources =>
    let isMany := sources.length > 1
    let isInto := match (← lookUp target) with
      | .ok (_, .directory) => true
      | _ => false
    if isMany && !isInto then object program s!"target '{target}': No such file or directory"
    else
      for source in sources do
        match (← lookUp source), (← goalOf source target) with
        | .error e, _ => object program s!"cannot stat '{source}': {e.message}"
        | .ok (path, entry), .ok goal => do
          let d := (← getThe World).disk
          if !d.isDirectory goal.dropLast then
            let what := if isMove then s!"move '{source}' to" else "create regular file"
            object program s!"cannot {what} '{target}': No such file or directory"
          else if path == goal then
            object program s!"'{source}' and '{target}' are the same file"
          else if isMove then setDisk (·.move path goal)
          else
            match entry with
            | .directory =>
              if isDeep then
                setDisk fun d =>
                  (d.entries.filter fun x => path.isPrefixOf x.1).foldl (fun d x =>
                    let p := goal ++ x.1.drop path.length
                    match x.2 with
                    | .file key => (d.create p (d.content key)).1
                    | e => d.put p e) d
              else object program s!"-r not specified; omitting directory '{source}'"
            | .file key =>
              match d.entry? goal with
              | some (.file old) => setDisk fun d => d.setContent old (d.content key)
              | some (.device _) => pure ()
              | _ => setDisk fun d => (d.create goal (d.content key)).1
            | .device _ => setDisk fun d => (d.create goal "").1
        | .ok _, .error e =>
          object program s!"cannot create regular file '{target}': {e.message}"

/-- Gives files further names. -/
def link (arguments : List String) : Act Unit := do
  let (_, files) := optionsOf arguments
  setStatus 0
  match files with
  | [source, target] =>
    match (← lookUp source), (← goalOf source target) with
    | .ok (_, entry), .ok goal =>
      if ((← getThe World).disk.entry? goal).isSome then
        object "ln" s!"failed to create hard link '{target}': File exists"
      else setDisk (·.put goal entry)
    | .error e, _ => object "ln" s!"failed to access '{source}': {e.message}"
    | _, .error e => object "ln" s!"failed to create hard link '{target}': {e.message}"
  | _ => objectToNothing "ln"

/-! ### Time -/

/-- The microseconds in the units of time. -/
def timeUnits : List (Char × Nat) :=
  [('s', 1000000), ('m', 60000000), ('h', 3600000000), ('d', 86400000000)]

/-- The microseconds that a text stands for: seconds, with places after a point or without, or a number
of another unit. -/
def microseconds? (s : String) : Option Nat :=
  let cs := s.toList
  let (unit, cs) := match cs.getLast?.bind fun c => timeUnits.lookup c with
    | some unit => (unit, cs.dropLast)
    | none => (1000000, cs)
  let whole := cs.takeWhile (· != '.')
  let places := cs.drop (whole.length + 1)
  if (whole ++ places).isEmpty || !(whole ++ places).all Char.isDigit then none
  else some ((readDigits 10 0 (whole ++ places)).1 * unit / 10 ^ places.length)

/-- Lets time pass. -/
def sleep (arguments : List String) : Act Unit := do
  setStatus 0
  if arguments.isEmpty then objectToNothing "sleep"
  else
    match arguments.filter fun s => (microseconds? s).isNone && s != "infinity" with
    | [] =>
      if arguments.contains "infinity" then throw .late
      pass (arguments.filterMap microseconds?).sum
    | wrong =>
      for s in wrong do object "sleep" s!"invalid time interval '{s}'"
      let _ ← write 2 "Try 'sleep --help' for more information.\n"

/-! ### Texts -/

/-- The number of lines or characters that options ask for, whether it is of characters, and the other
arguments; from the beginning on if it has a plus. -/
def amountOf : List String → Nat × Bool × Bool × List String
  | [] => (10, false, false, [])
  | s :: rest =>
    let number (cs : List Char) (isChars : Bool) (files : List String) :=
      let (isFrom, ds) := match cs with
        | '+' :: ds => (true, ds)
        | ds => (false, ds)
      ((readDigits 10 0 ds).1, isChars, isFrom, files)
    match s.toList with
    | ['-', 'n'] => number (rest.headD "").toList false rest.tail
    | ['-', 'c'] => number (rest.headD "").toList true rest.tail
    | '-' :: 'n' :: cs => number cs false rest
    | '-' :: 'c' :: cs => number cs true rest
    | '-' :: d :: cs =>
      if d.isDigit then number (d :: cs) false rest else
        let (n, isChars, isFrom, files) := amountOf rest
        (n, isChars, isFrom, files)
    | _ => (10, false, false, s :: rest)

/-- Writes parts of files, with their names if there are several. -/
def writeParts (program : String) (part : List Char → List Char) (files : List String) : Act Unit := do
  let found ← contentsOf program files
  let mut isFirst := true
  for (file, text) in found do
    if 1 < files.length then
      put ((if isFirst then "" else "\n") ++ s!"==> {file} <==\n")
    isFirst := false
    put (String.ofList (part text.toList))

/-- The first lines or characters. -/
def head (arguments : List String) : Act Unit := do
  let (n, isChars, _, files) := amountOf arguments
  if files == ["/dev/zero"] then
    setStatus 0
    put (String.ofList (List.replicate n '\x00'))
  else
    writeParts "head" (fun cs =>
      if isChars then cs.take n
      else ((linesOf (String.ofList cs)).take n).flatMap String.toList) files

/-- The last lines or characters. -/
def tail (arguments : List String) : Act Unit := do
  let (n, isChars, isFrom, files) := amountOf arguments
  writeParts "tail" (fun cs =>
    let last {α : Type} (xs : List α) : List α :=
      if isFrom then xs.drop (n - 1) else xs.drop (xs.length - n)
    if isChars then last cs
    else (last (linesOf (String.ofList cs))).flatMap String.toList) files

/-- The number of words in a text. -/
def wordCount (cs : List Char) : Nat :=
  (cs.foldl (fun (n, inside) c =>
    if isNumberBlank c then (n, false) else (if inside then n else n + 1, true)) (0, false)).1

/-- Counts lines, words and characters. -/
def count (arguments : List String) : Act Unit := do
  let (options, files) := optionsOf arguments
  let found ← contentsOf "wc" files
  let options := if options.isEmpty then ['l', 'w', 'c'] else options
  let counts (text : String) : List Nat :=
    let cs := text.toList
    (if options.contains 'l' then [(cs.filter (· == '\n')).length] else []) ++
      (if options.contains 'w' then [wordCount cs] else []) ++
      (if options.contains 'c' || options.contains 'm' then [cs.length] else [])
  let rows : List (List Nat × String) := found.map fun (file, text) => (counts text, file)
  let totals := rows.foldl (fun t r => if t.isEmpty then r.1 else t.zipWith (· + ·) r.1) []
  let rows := if 1 < files.length then rows ++ [(totals, "total")] else rows
  let sizes := (found.map fun (_, text) => text.length).sum
  let isPiped := match (← channel? 0) with
    | some (_, .file ..) => false
    | _ => files.isEmpty || files.contains "-"
  let width :=
    if (counts "").length ≤ 1 && files.length ≤ 1 then 1
    else if isPiped then 7
    else (toString sizes).length
  for (row, file) in rows do
    let texts := row.map fun n =>
      let t := toString n
      "".pushn ' ' (width - t.length) ++ t
    put (" ".intercalate texts ++ (if files.isEmpty then "" else " " ++ file) ++ "\n")

/-- The whole number at the beginning of a line. -/
def leadingNumber (s : String) : Int :=
  let cs := s.toList.dropWhile isNumberBlank
  let (negative, cs) := match cs with
    | '-' :: ds => (true, ds)
    | ds => (false, ds)
  let n : Int := (readDigits 10 0 (cs.takeWhile Char.isDigit)).1
  if negative then -n else n

/-- Writes lines in order. -/
def sort (arguments : List String) : Act Unit := do
  let (options, files) := optionsOf arguments
  let found ← contentsOf "sort" files
  let lines := found.flatMap fun (_, text) => bareLinesOf text
  let before (a b : String) : Bool :=
    if options.contains 'n' && leadingNumber a != leadingNumber b then
      decide (leadingNumber a ≤ leadingNumber b)
    else decide (a ≤ b)
  let sorted := lines.mergeSort before
  let sorted := if options.contains 'r' then sorted.reverse else sorted
  let sorted := if options.contains 'u' then sorted.eraseReps else sorted
  put (String.join (sorted.map (· ++ "\n")))

/-- Writes lines without those that repeat the one before. -/
def unique (arguments : List String) : Act Unit := do
  let (options, files) := optionsOf arguments
  let found ← contentsOf "uniq" files
  let groups := (found.flatMap fun (_, text) => bareLinesOf text).splitBy (· == ·)
  put (String.join (groups.map fun g =>
    let n := toString g.length
    let line := g.headD "" ++ "\n"
    if options.contains 'c' then "".pushn ' ' (7 - n.length) ++ n ++ " " ++ line else line))

/-- Writes whole numbers in order. -/
def sequence (arguments : List String) : Act Unit := do
  setStatus 0
  let numbers := arguments.filterMap decimal?
  let (first, step, last) := match numbers with
    | [n] => (1, 1, n)
    | [m, n] => (m, 1, n)
    | [m, s, n] => (m, s, n)
    | _ => (1, 1, 0)
  match arguments.find? fun s => (decimal? s).isNone with
  | some s => objectAndAdvise "seq" s!"invalid floating point argument: '{s}'"
  | none =>
    if arguments.isEmpty then objectToNothing "seq"
    else if step = 0 then
      objectAndAdvise "seq" "invalid Zero increment value: '0'"
    else
      let n := if (last - first) * step.sign < 0 then 0
        else ((last - first).natAbs / step.natAbs) + 1
      put (String.join ((List.range n).map fun i => toString (first + Int.ofNat i * step) ++ "\n"))

/-- The characters that a description of characters stands for. -/
def characters : (fuel : Nat) → List Char → List Char
  | 0, _ => []
  | _, [] => []
  | fuel + 1, '\\' :: cs =>
    let (c, rest) := escaped cs
    c :: characters fuel rest
  | fuel + 1, '[' :: ':' :: cs =>
    let name := cs.takeWhile (· != ':')
    match Pattern.classes.lookup (String.ofList name) with
    | some accepts =>
      ((List.range 256).map Char.ofNat).filter accepts ++ characters fuel (cs.drop (name.length + 2))
    | none => '[' :: characters fuel (':' :: cs)
  | fuel + 1, a :: '-' :: b :: cs =>
    (List.range (b.toNat + 1 - a.toNat)).map (fun i => Char.ofNat (a.toNat + i)) ++ characters fuel cs
  | fuel + 1, c :: cs => c :: characters fuel cs

/-- Replaces or drops characters. -/
def translate (arguments : List String) : Act Unit := do
  let (options, sets) := optionsOf arguments
  setStatus 0
  let sets := sets.map fun s => characters (s.length + 1) s.toList
  let first := sets.headD []
  let text := ((← readAll 0).getD "").toList
  let isIn (c : Char) : Bool := first.contains c != (options.contains 'c' || options.contains 'C')
  let result := if options.contains 'd' then text.filter (!isIn ·)
    else
      match sets with
      | [_, second] =>
        text.map fun c =>
          if isIn c then
            ((second[first.idxOf c]?).or second.getLast?).getD c
          else c
      | _ => text
  let result := if options.contains 's' then
      (result.splitBy (· == ·)).flatMap fun g =>
        if g.head?.any fun c => (sets.getLast?.getD []).contains c then g.take 1 else g
    else result
  put (String.ofList result)

/-- The numbers in a list of numbers and ranges of them. -/
def isListed (text : String) (n : Nat) : Bool :=
  (text.splitOn ",").any fun part =>
    match part.splitOn "-" with
    | [a] => (readDigits 10 0 a.toList).1 == n
    | [a, b] =>
      let low := if a == "" then 1 else (readDigits 10 0 a.toList).1
      low ≤ n && (b == "" || n ≤ (readDigits 10 0 b.toList).1)
    | _ => false

/-- Writes some fields or characters of each line. -/
def cut (arguments : List String) : Act Unit := do
  let valueOf (c : Char) : Option String :=
    match arguments.dropWhile fun s => !("-".push c).toList.isPrefixOf s.toList with
    | [] => none
    | s :: rest => if s.length = 2 then rest.head? else some (String.ofList (s.toList.drop 2))
  let isOption (s : String) : Bool := s.toList.head? == some '-'
  let files := arguments.zip ("" :: arguments) |>.filterMap fun (s, before) =>
    if isOption s || isOption before && before.length = 2 then none else some s
  let found ← contentsOf "cut" files
  let separator := (valueOf 'd').getD "\t"
  for line in found.flatMap fun (_, text) => bareLinesOf text do
    let chosen {α : Type} (list : String) (xs : List α) : List α :=
      ((xs.zipIdx 1).filter fun x => isListed list x.2).map Prod.fst
    match valueOf 'f', (valueOf 'c').or (valueOf 'b') with
    | some list, _ =>
      let fields := line.splitOn separator
      put ((if fields.length = 1 then line else separator.intercalate (chosen list fields)) ++ "\n")
    | none, some list => put (String.ofList (chosen list line.toList) ++ "\n")
    | none, none => pure ()

/-- Writes what is read, to files as well. -/
def tee (arguments : List String) : Act Unit := do
  let (options, files) := optionsOf arguments
  setStatus 0
  let text := (← readAll 0).getD ""
  put text
  for file in files do
    let before ← if options.contains 'a' then do pure ((← contentOf file).toOption.getD "")
      else pure ""
    match (← setContentOf file (before ++ text)) with
    | .ok _ => pure ()
    | .error e => object "tee" s!"{file}: {e.message}"

/-- The name at the end of a path without an ending. -/
def baseName (arguments : List String) : Act Unit := do
  setStatus 0
  match arguments with
  | [] => objectToNothing "basename"
  | path :: rest =>
    let name := lastStep path
    let ending := rest.headD ""
    let cs := name.toList
    let isEnding := ending.toList.isSuffixOf cs && ending.length < cs.length
    put (String.ofList (if isEnding then cs.take (cs.length - ending.length) else cs) ++ "\n")

/-- The path without the name at its end. -/
def directoryName (arguments : List String) : Act Unit := do
  setStatus 0
  match arguments with
  | [] => objectToNothing "dirname"
  | path :: _ =>
    let steps := (path.splitOn "/").filter (· != "")
    let isWhole := path.toList.head? == some '/'
    let before := "/".intercalate steps.dropLast
    put ((if isWhole then "/" ++ before else if before == "" then "." else before) ++ "\n")

/-- Writes a text again and again. -/
def repeatText (arguments : List String) : Act Unit := do
  let line := (if arguments.isEmpty then "y" else " ".intercalate arguments) ++ "\n"
  let block := String.join (List.replicate 100 line)
  Act.again (2 ^ 40) (fun _ => do
    tickLong
    return (← write 1 block, ())) ()

/-- The programs. -/
def utilities : List (String × (List String → Act Unit)) :=
  [("cat", cat), ("ls", list), ("mkdir", makeDirectories), ("rmdir", removeDirectories), ("rm", remove),
    ("touch", touch), ("cp", transfer false), ("mv", transfer true), ("ln", link), ("sleep", sleep),
    ("head", head), ("tail", tail), ("wc", count), ("sort", sort), ("uniq", unique), ("seq", sequence),
    ("tr", translate), ("cut", cut), ("tee", tee), ("basename", baseName), ("dirname", directoryName),
    ("yes", repeatText), ("chmod", fun _ => setStatus 0), ("sync", fun _ => setStatus 0),
    ("uname", fun _ => do
      setStatus 0
      put "Linux\n")]

end Growth.Shell.Utility
