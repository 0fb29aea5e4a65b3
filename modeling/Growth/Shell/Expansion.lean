import Growth.Shell.Expression
import Growth.Shell.Pattern
import Growth.Shell.World

/-! What words stand for. The parts of a word come to items; these are split into fields where blanks
stand that are not quoted, and a field that is a pattern is replaced by the names that match it. -/

namespace Growth.Shell

open Act

/-- What a part of a word comes to. -/
inductive Item where
  /-- A character, whether it is quoted, and whether it may split the word. -/
  | char (c : Char) (quoted splits : Bool)
  | quotes
  /-- Between arguments that are quoted. -/
  | border
  /-- Between arguments that are not quoted. -/
  | gap
  /-- No arguments. -/
  | nothing
deriving DecidableEq, Repr

/-- The characters that split words. -/
def Shell.splitters (s : Shell) : List Char :=
  match s.known? "IFS" with
  | some v => (v.value.getD "").toList
  | none => [' ', '\t', '\n']

/-- The items of a text. -/
def itemsOfText (quoted : Bool) (text : String) : List Item :=
  text.toList.map (Item.char · quoted (!quoted))

/-- The items of the arguments. -/
def Shell.itemsOfArguments (s : Shell) (asOne quoted : Bool) : List Item :=
  if s.arguments.isEmpty then [.nothing]
  else
    let between : List Item :=
      if !quoted then [.gap]
      else if asOne then (s.splitters.take 1).map (Item.char · true false)
      else [.border]
    between.intercalate (s.arguments.map (itemsOfText quoted))

/-- The text of items. -/
def textOf (items : List Item) : String :=
  String.ofList <| items.filterMap fun
    | .char c _ _ => some c
    | .border | .gap => some ' '
    | .quotes | .nothing => none

/-- The characters of items. -/
def markedOf (items : List Item) : List Marked :=
  items.filterMap fun
    | .char c quoted _ => some (c, quoted)
    | .border | .gap => some (' ', false)
    | .quotes | .nothing => none

/-! ### Values -/

/-- The value of an expression, which may change variables. -/
def evaluated (text : String) : Act Int := do
  match Expression.read text with
  | .error expected => fail s!"arithmetic expression: {expected}: \"{text}\""
  | .ok e =>
    let put (s : Shell) (name value : String) : Except Expression.ValueError Shell :=
      let v := (s.known? name).getD ⟨none, false, false⟩
      if v.isReadOnly then .error (.readOnly name)
      else .ok (s.setVariable name { v with value := some value })
    match e.value Shell.parameter? put (← shell) with
    | .ok (n, s) => do
      setShell fun _ => s
      return n
    | .error .divisionByZero =>
      fail s!"arithmetic expression: division by zero: \"{text}\""
    | .error (.notNumber value) => fail s!"Illegal number: {value}"
    | .error (.readOnly name) => fail s!"{name}: is read only"

/-- The value of a parameter that is a single text. Under an option it may not be missing. -/
def valueOf (name : String) : Act String := do
  let s ← shell
  match s.parameter? name with
  | some v => return v
  | none =>
    if s.options.contains 'u' then fail s!"{name}: parameter not set"
    return ""

/-- A text without the line ends at its end. -/
def withoutLastLines (text : String) : String :=
  String.ofList (text.toList.reverse.dropWhile (· == '\n')).reverse

/-- The items that a word comes to. Inside a parameter its blanks may split words. `output` runs
commands and gives what they write; words are nested less than `fuel` deep. -/
def itemsOf (output : Option Command → Act String) :
    (fuel : Nat) → (inside : Bool) → Word → Act (List Item)
  | 0, _, _ => throw .late
  | fuel + 1, inside, word => do
    let mut backwards : List Item := []
    for part in word do
      let more : List Item ← match part with
        | .char c quoted => pure [.char c quoted (inside && !quoted)]
        | .quotes => pure [.quotes]
        | .value "@" quoted => do pure ((← shell).itemsOfArguments false quoted)
        | .value "*" quoted => do pure ((← shell).itemsOfArguments true quoted)
        | .value name quoted => do pure (itemsOfText quoted (← valueOf name))
        | .length name quoted => do
          let s ← shell
          let n ← if name == "@" || name == "*" then pure s.arguments.length
            else do pure (← valueOf name).length
          pure (itemsOfText quoted (toString n))
        | .fallback name kind emptyToo other quoted => do
          let s ← shell
          let isMany := name == "@" || name == "*"
          let value := if isMany then
              if s.arguments.isEmpty then none else some (" ".intercalate s.arguments)
            else s.parameter? name
          let value := if emptyToo then value.filter (· != "") else value
          let own := if isMany then s.itemsOfArguments (name == "*") quoted
            else itemsOfText quoted (value.getD "")
          match kind, value with
          | .instead, some _ | .assigned, some _ | .refused, some _ => pure own
          | .instead, none | .alternative, some _ => itemsOf output fuel true other
          | .alternative, none => pure []
          | .assigned, none => do
            let text := textOf (← itemsOf output fuel true other)
            if isName name then assign name text else fail s!"{name}: bad variable name"
            pure (itemsOfText quoted text)
          | .refused, none => do
            let text := textOf (← itemsOf output fuel true other)
            let text := if text != "" then text
              else if emptyToo then "parameter not set or null" else "parameter not set"
            fail s!"{name}: {text}"
        | .trimmed name atEnd longest pattern quoted => do
          let value ← if name == "@" || name == "*"
            then do pure (" ".intercalate (← shell).arguments) else valueOf name
          let pattern := patternOf (markedOf (← itemsOf output fuel false pattern))
          pure (itemsOfText quoted
            (String.ofList (trimmed atEnd longest pattern value.toList)))
        | .malformed => fail "Bad substitution"
        | .output c quoted => do pure (itemsOfText quoted (withoutLastLines (← output c)))
        | .arithmetic expression quoted => do
          let text := textOf (← itemsOf output fuel false expression)
          pure (itemsOfText quoted (toString (← evaluated text)))
      backwards := more.reverse ++ backwards
    return backwards.reverse

/-- The items of a word, at the beginning of which a tilde stands for the home directory. -/
def itemsOfWord (output : Option Command → Act String) (fuel : Nat) (word : Word) :
    Act (List Item) := do
  let home := ((← shell).known? "HOME").bind (·.value)
  match word, home with
  | [.char '~' false], some home => return itemsOfText true home
  | .char '~' false :: .char '/' false :: rest, some home =>
    return itemsOfText true home ++ (← itemsOf output fuel false (.char '/' false :: rest))
  | _, _ => itemsOf output fuel false word

/-! ### Fields -/

/-- Blanks among the characters that split words; several of them count as one. -/
def isWhite (c : Char) : Bool :=
  c == ' ' || c == '\t' || c == '\n'

/-- The fields so far, the last one first; the one that has been begun; and whether a blank ended the
last one. -/
structure Fields where
  done : List (List Marked)
  current : Option (List Marked)
  afterBlank : Bool

namespace Fields

/-- With the current field ended. -/
def ended (f : Fields) (byBlank : Bool) : Fields :=
  match f.current with
  | some cs => ⟨cs.reverse :: f.done, none, byBlank⟩
  | none => f

/-- With one more item. -/
def add (splitters : List Char) (f : Fields) : Item → Fields
  | .char c quoted splits =>
    if splits && splitters.contains c then
      if isWhite c then f.ended true
      else if f.current.isSome then f.ended false
      else if f.afterBlank then { f with afterBlank := false }
      else { f with done := [] :: f.done }
    else { f with current := some ((c, quoted) :: f.current.getD []), afterBlank := false }
  | .quotes => { f with current := some (f.current.getD []), afterBlank := false }
  | .border => { f.ended false with current := some [] }
  | .gap => f.ended true
  | .nothing => if f.current == some [] then { f with current := none } else f

end Fields

/-- The fields that items come to. -/
def fieldsOf (splitters : List Char) (items : List Item) : List (List Marked) :=
  ((items.foldl (Fields.add splitters) ⟨[], none, false⟩).ended false).done.reverse

/-! ### Patterns of paths -/

/-- The steps of a pattern for paths. -/
def stepsOf : List Marked → List (List Marked)
  | [] => [[]]
  | (c, quoted) :: cs =>
    if c == '/' then [] :: stepsOf cs
    else
      match stepsOf cs with
      | [] => [[(c, quoted)]]
      | step :: steps => ((c, quoted) :: step) :: steps

/-- The text of characters. -/
def plainText (cs : List Marked) : String :=
  String.ofList (cs.map Prod.fst)

/-- The paths that match the steps, as they are written, after what leads to a directory. -/
def matching (d : Disk) (here : Path) (written : String) : List (List Marked) → List String
  | [] => []
  | step :: steps =>
    let names := if isPattern step then
        (d.names here).filter fun name =>
          Pattern.accepts (patternOf step) name.toList &&
            (name.toList.head? != some '.' || (step.head?.map Prod.fst) == some '.')
      else [plainText step]
    names.flatMap fun name =>
      let text := written ++ name
      match d.find here (if name == "" then "." else name) with
      | .error _ => []
      | .ok (path, entry) =>
        if steps.isEmpty then [text]
        else if entry == .directory then matching d path (text ++ "/") steps
        else []

/-- The words that a field stands for: the names that match it, or the field itself. -/
def namesOf (s : Shell) (d : Disk) (field : List Marked) : List String :=
  if s.options.contains 'f' || !isPattern field then [plainText field]
  else
    let found := match stepsOf field with
      | [] :: steps => matching d [] "/" steps
      | steps => matching d s.directory "" steps
    if found.isEmpty then [plainText field] else found

/-- The words that words stand for. -/
def expanded (output : Option Command → Act String) (fuel : Nat) (words : List Word) :
    Act (List String) := do
  let found ← words.mapM fun word => do
    let items ← itemsOfWord output fuel word
    let w ← getThe World
    let fields := fieldsOf w.shell.splitters items
    return fields.flatMap (namesOf w.shell w.disk)
  return found.flatten

/-- The text that a word stands for where it is not split. -/
def expandedText (output : Option Command → Act String) (fuel : Nat) (word : Word) :
    Act String := do
  return textOf (← itemsOfWord output fuel word)

end Growth.Shell
