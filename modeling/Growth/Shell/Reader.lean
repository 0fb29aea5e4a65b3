import Growth.Shell.Words

/-! Reading commands. A token that turns out to belong to something else is read again. -/

namespace Growth.Shell

/-! ### Documents -/

/-- The line at the beginning of `cs` with its end, what follows it, and how many lines end in it. If
it is not taken literally, a backslash takes a line end away. -/
def documentLine (literal : Bool) : List Char → List Char × List Char × Nat
  | [] => ([], [], 0)
  | '\n' :: cs => (['\n'], cs, 1)
  | '\\' :: c :: cs =>
    if literal then
      let (more, rest, n) := documentLine literal (c :: cs)
      ('\\' :: more, rest, n)
    else
      let (more, rest, n) := documentLine literal cs
      if c == '\n' then (more, rest, n + 1) else ('\\' :: c :: more, rest, n)
  | c :: cs =>
    let (more, rest, n) := documentLine literal cs
    (c :: more, rest, n)

/-- The lines up to the one that ends the document, what follows it, and how many lines there are; less
than `fuel`. -/
def documentLines (a : Awaited) : (fuel : Nat) → List Char → List Char × List Char × Nat
  | 0, cs => ([], cs, 0)
  | fuel + 1, cs =>
    let cs := if a.withoutTabs then cs.dropWhile (· == '\t') else cs
    let rest := cs.drop a.mark.length
    if cs.isEmpty then ([], [], 0)
    else if a.mark.toList.isPrefixOf cs && rest.head?.all (· == '\n') then
      ([], rest.tail, if rest.isEmpty then 0 else 1)
    else
      let (line, rest, n) := documentLine a.literal cs
      let (more, rest, m) := documentLines a fuel rest
      (line ++ more, rest, n + m)

/-- Reads the documents that are awaited. -/
def readDocuments (inner : Bool → Reading (Option Command)) : Reading Unit := do
  let awaited := (← get).awaited
  modify fun s => { s with awaited := [] }
  for a in awaited do
    let s ← get
    let (text, rest, n) := documentLines a (s.rest.length + 1) s.rest
    let word ←
      if a.literal then pure (text.map (Part.char · true))
      else onText text s.line (parts inner (4 * text.length + 4) .document)
    modify fun s =>
      { s with rest, line := s.line + n, documents := (a.key, word) :: s.documents }

/-! ### Tokens -/

/-- What follows blanks, comments and joints, and how many joints there were. -/
def afterBlanks (comment : Bool) : List Char → List Char × Nat
  | [] => ([], 0)
  | '\\' :: '\n' :: cs =>
    if comment then ('\n' :: cs, 0)
    else
      let (rest, n) := afterBlanks comment cs
      (rest, n + 1)
  | c :: cs =>
    if c == '\n' then (c :: cs, 0)
    else if comment || c == '#' then afterBlanks true cs
    else if c == ' ' || c == '\t' then afterBlanks false cs
    else (c :: cs, 0)

/-- The sign at the beginning of a text that one of the longer ones is, or else the short one, and what
follows. -/
def longerSign (short : String) (longer : List Char) : Reading String := do
  match (← upcoming) with
  | c :: rest =>
    if longer.contains c then
      goTo rest
      return short.push c
    else return short
  | [] => return short

/-- Reads the sign of a redirection. -/
def redirectionSign (c : Char) : Reading String := do
  if c == '>' then longerSign ">" ['>', '|', '&']
  else
    let sign ← longerSign "<" ['<', '&', '>']
    if sign == "<<" then longerSign sign ['-'] else return sign

/-- Reads a word or the sign of a redirection, before which the number of its stream may stand. -/
def wordToken (inner : Bool → Reading (Option Command)) (context : Context) : Reading Token := do
  let parts ← parts inner (4 * (← get).rest.length + 4) context
  let stream : Option (Option Nat) := match parts with
    | [] => some none
    | [.char c false] => if c.isDigit then some (some (c.toNat - '0'.toNat)) else none
    | _ => none
  match stream, (← upcoming) with
  | some stream, c :: rest =>
    if c == '<' || c == '>' then
      goTo rest
      return .redirection (stream.getD (if c == '<' then 0 else 1)) (← redirectionSign c)
    else return .word parts
  | _, _ => return .word parts

/-- Reads a token that has not been read yet. -/
def newToken (inner : Bool → Reading (Option Command)) (context : Context) : Reading Token := do
  let s ← get
  let (cs, n) := afterBlanks false s.rest
  set { s with rest := cs, line := s.line + n }
  match cs with
  | [] => return .endOfText
  | c :: rest =>
    if c == '\n' then
      goTo rest
      endLine
      return .newline
    else if c == '&' || c == '|' || c == ';' then
      goTo rest
      return .sign (← longerSign (String.ofList [c]) [c])
    else if c == '(' || c == ')' then
      goTo rest
      return .sign (String.ofList [c])
    else wordToken inner context

/-- The words that are more than words where a command begins or goes on. -/
def reservedWords : List String :=
  ["!", "\x7b", "\x7d", "case", "do", "done", "elif", "else", "esac", "fi", "for", "if", "in", "then",
    "until", "while"]

/-- Whether a word is one that no quotes stand in. -/
def isBare (w : Word) : Bool :=
  (literal? w).isSome

/-- The same token, as a reserved word if it is one. -/
def Token.recognized : Token → Token
  | .word w =>
    match literal? w with
    | some s => if reservedWords.contains s then .reserved s else .word w
    | none => .word w
  | t => t

/-- Reads a token after line ends, of which there are less than `fuel`. -/
def tokenAfterLines (inner : Bool → Reading (Option Command)) : (fuel : Nat) → Reading Token
  | 0 => return .endOfText
  | fuel + 1 => do
    match (← newToken inner .word) with
    | .newline => do
      readDocuments inner
      tokenAfterLines inner fuel
    | t => return t

/-- Reads the token that has to be read again, or else a new one. Line ends before it are skipped if
`lines`, and it may be a reserved word if `reserved`. -/
def token (inner : Bool → Reading (Option Command)) (lines reserved : Bool) : Reading Token := do
  let s ← get
  let first ← if s.again then pure s.token else newToken inner .word
  modify fun s => { s with again := false }
  let t ← match lines, first with
    | true, .newline => do
      readDocuments inner
      tokenAfterLines inner ((← get).rest.length + 1)
    | _, t => pure t
  let t := if reserved then t.recognized else t
  modify fun s => { s with token := t }
  return t

/-- Lets the last token be read again. -/
def again : Reading Unit :=
  modify fun s => { s with again := true }

/-- Takes the last token for the one that is expected, or refuses it. -/
def expectLast (expected : Token) : Reading Unit := do
  let same := match (← get).token, expected with
    | .reserved a, .reserved b => a == b
    | .sign a, .sign b => a == b
    | .word _, .word _ => true
    | _, _ => false
  unless same do refuseToken (some expected)

/-! ### Redirections -/

/-- How the signs of redirections open files. -/
def openings : List (String × Opening) :=
  [("<", .reading), (">", .writing), (">|", .writing), (">>", .appending), ("<>", .readingAndWriting)]

/-- The text of a word without its quotes. -/
def unquoted (w : Word) : String :=
  String.ofList <| w.filterMap fun
    | .char c _ => some c
    | _ => none

/-- Whether something in a word is quoted. -/
def hasQuotes (w : Word) : Bool :=
  w.any fun
    | .quotes | .char _ true => true
    | _ => false

/-- Reads the target of a redirection. -/
def target (inner : Bool → Reading (Option Command)) (stream : Nat) (sign : String) :
    Reading Redirection := do
  let isDocument := sign == "<<" || sign == "<<-"
  let t ← newToken inner (if isDocument then .mark else .word)
  modify fun s => { s with token := t }
  match t with
  | .word w =>
    if isDocument then
      let s ← get
      let key := s.documents.length + s.awaited.length
      let a : Awaited := ⟨key, unquoted w, sign == "<<-", hasQuotes w⟩
      set { s with awaited := s.awaited ++ [a] }
      return .document stream key
    else
      match openings.lookup sign with
      | some how => return .file stream how w
      | none => return .copy stream w
  | _ => refuseToken none

/-- Reads the redirections after a command that ends with a word of its own; less than `fuel`. -/
def redirections (inner : Bool → Reading (Option Command)) : (fuel : Nat) → Reading (List Redirection)
  | 0 => return []
  | fuel + 1 => do
    match (← token inner false true) with
    | .redirection stream sign => do
      let r ← target inner stream sign
      return r :: (← redirections inner fuel)
    | _ => do
      again
      return []

/-! ### Simple commands -/

/-- The assignment that a word is: a name without quotes, an equals sign and a value. -/
def assignmentIn? (w : Word) : Option (String × Word) :=
  let name := w.takeWhile fun
    | .char c false => isNameChar c
    | _ => false
  match literal? name, w.drop name.length with
  | some n, .char '=' false :: value => if isName n then some (n, value) else none
  | _, _ => none

/-- The commands that no function can be named like. -/
def specialNames : List String :=
  [".", ":", "break", "continue", "eval", "exec", "exit", "export", "local", "readonly", "return",
    "set", "shift", "times", "trap", "unset"]

/-- What has been read of a simple command. -/
structure Beginning where
  assignments : List (String × Word)
  words : List Word
  redirections : List Redirection

/-- Reads the words and redirections of a simple command; less than `fuel`. `body` reads the body of a
function, in case it is one. -/
def simple (inner : Bool → Reading (Option Command)) (body : Reading Command) (line : Nat) :
    (fuel : Nat) → Beginning → Reading Command
  | 0, b => return .simple line b.assignments b.words b.redirections
  | fuel + 1, b => do
    let done : Reading Command := do
      again
      return .simple line b.assignments b.words b.redirections
    match (← token inner false false) with
    | .word w =>
      match if b.words.isEmpty then assignmentIn? w else none with
      | some a => simple inner body line fuel { b with assignments := b.assignments ++ [a] }
      | none => simple inner body line fuel { b with words := b.words ++ [w] }
    | .redirection stream sign => do
      let r ← target inner stream sign
      simple inner body line fuel { b with redirections := b.redirections ++ [r] }
    | .sign "(" =>
      match b with
      | ⟨[], [w], []⟩ => do
        let _ ← token inner false false
        expectLast (.sign ")")
        match literal? w with
        | some name =>
          if isName name && !specialNames.contains name then return .function name (← body)
          else refuse "Bad function name"
        | none => refuse "Bad function name"
      | _ => done
    | _ => done

/-! ### Commands -/

/-- Where a list of commands ends. -/
inductive Extent where
  /-- At the end of a line. -/
  | line
  /-- At a word or sign that ends it. -/
  | nested
  /-- There too, and it may be empty. -/
  | optional
deriving DecidableEq, Repr

/-- Whether a token ends a nested list of commands. -/
def Token.endsList : Token → Bool
  | .endOfText => true
  | .sign s => s == ")" || s == ";;"
  | .reserved s => ["\x7d", "do", "done", "elif", "else", "esac", "fi", "then"].contains s
  | _ => false

/-- A command after others. -/
def after (found : Option Command) (c : Command) : Command :=
  match found with
  | none => c
  | some f => .sequence f c

mutual

/-- Reads commands inside a word. -/
def innerList : (fuel : Nat) → Bool → Reading (Option Command)
  | 0, _ => refuse "too deep"
  | fuel + 1, closed => do
    let c ← list fuel .optional none
    if closed then
      let _ ← token (innerList fuel) false false
      expectLast (.sign ")")
    return c

/-- Reads commands after those in `found`. -/
def list : (fuel : Nat) → Extent → Option Command → Reading (Option Command)
  | 0, _, _ => refuse "too deep"
  | fuel + 1, extent, found => do
    match (← token (innerList fuel) (extent != .line) true) with
    | .newline => do
      readDocuments (innerList fuel)
      return found
    | .endOfText => do
      readDocuments (innerList fuel)
      again
      return found
    | t => do
      again
      if (extent == .optional || extent == .nested && found.isSome) && t.endsList then return found
      let c ← chain fuel
      match (← token (innerList fuel) false false) with
      | .sign "&" => list fuel extent (some (after found (.aside c)))
      | .sign ";" => list fuel extent (some (after found c))
      | .newline => do
        again
        list fuel extent (some (after found c))
      | .endOfText => do
        readDocuments (innerList fuel)
        again
        return some (after found c)
      | _ =>
        if extent == .line then refuseToken none
        else do
          again
          return some (after found c)

/-- Reads commands joined by the signs for and and or. -/
def chain : (fuel : Nat) → Reading Command
  | 0 => refuse "too deep"
  | fuel + 1 => do chained fuel (← pipeline fuel false)

/-- Reads what is joined to a command. -/
def chained : (fuel : Nat) → Command → Reading Command
  | 0, _ => refuse "too deep"
  | fuel + 1, c => do
    match (← token (innerList fuel) false false) with
    | .sign "&&" => do chained fuel (.both c (← pipeline fuel true))
    | .sign "||" => do chained fuel (.either c (← pipeline fuel true))
    | _ => do
      again
      return c

/-- Reads commands each of which reads what the one before it writes, after line ends if `lines`. -/
def pipeline : (fuel : Nat) → (lines : Bool) → Reading Command
  | 0, _ => refuse "too deep"
  | fuel + 1, lines => do
    let isNegated ← match (← token (innerList fuel) lines true) with
      | .reserved "!" => pure true
      | _ => do
        again
        pure false
    let c ← command fuel false
    let cs ← piped fuel
    let c := if cs.isEmpty then c else .pipeline (c :: cs)
    return if isNegated then .negated c else c

/-- Reads the further commands of a pipeline. -/
def piped : (fuel : Nat) → Reading (List Command)
  | 0 => refuse "too deep"
  | fuel + 1 => do
    match (← token (innerList fuel) false false) with
    | .sign "|" => do
      let c ← command fuel true
      return c :: (← piped fuel)
    | _ => do
      again
      return []

/-- Reads a single command, after line ends if `lines`. -/
def command : (fuel : Nat) → (lines : Bool) → Reading Command
  | 0, _ => refuse "too deep"
  | fuel + 1, lines => do
    let inner := innerList fuel
    let line := (← get).line
    let nested : Reading Command := do return (← list fuel .nested none).getD default
    let expect (t : Token) : Reading Unit := do
      let _ ← token inner false false
      expectLast t
    let ended (c : Command) (last : Token) : Reading Command := do
      expect last
      match (← redirections inner ((← get).rest.length + 1)) with
      | [] => return c
      | rs => return .redirected line c rs
    match (← token inner lines true) with
    | .reserved "if" => do ended (← branch fuel) (.reserved "fi")
    | .reserved "while" => do
      let test ← nested
      expect (.reserved "do")
      ended (.loop false test (← nested)) (.reserved "done")
    | .reserved "until" => do
      let test ← nested
      expect (.reserved "do")
      ended (.loop true test (← nested)) (.reserved "done")
    | .reserved "for" => do
      let name ← match (← token inner false false) with
        | .word w =>
          match (literal? w).filter isName with
          | some name => pure name
          | none => refuse "Bad for loop variable"
        | _ => refuse "Bad for loop variable"
      let words ← match (← token inner true true) with
        | .reserved "in" => do
          let words ← wordsOfLine fuel
          match (← get).token with
          | .newline | .sign ";" => pure words
          | _ => refuseToken none
        | .sign ";" => pure [[.quotes, .value "@" true]]
        | _ => do
          again
          pure [[.quotes, .value "@" true]]
      let _ ← token inner true true
      expectLast (.reserved "do")
      ended (.each line name words (← nested)) (.reserved "done")
    | .reserved "case" => do
      let word ← match (← token inner false false) with
        | .word w => pure w
        | _ => refuseToken (some (.word []))
      let _ ← token inner true true
      expectLast (.reserved "in")
      let entries ← entries fuel
      match (← redirections inner ((← get).rest.length + 1)) with
      | [] => return .choice line word entries
      | rs => return .redirected line (.choice line word entries) rs
    | .sign "(" => do ended (.apart (← nested)) (.sign ")")
    | .reserved "\x7b" => do ended (← nested) (.reserved "\x7d")
    | .word _ | .redirection .. => do
      let line := (← get).line
      again
      simple inner (command fuel true) line ((← get).rest.length + 2) ⟨[], [], []⟩
    | _ => refuseToken none

/-- Reads a branch after its first word, up to the word that ends it. -/
def branch : (fuel : Nat) → Reading Command
  | 0 => refuse "too deep"
  | fuel + 1 => do
    let inner := innerList fuel
    let test := (← list fuel .nested none).getD default
    let _ ← token inner false false
    expectLast (.reserved "then")
    let body := (← list fuel .nested none).getD default
    match (← token inner false false) with
    | .reserved "elif" => return .branch test body (some (← branch fuel))
    | .reserved "else" => return .branch test body (← list fuel .nested none)
    | _ => do
      again
      return .branch test body none

/-- Reads words up to another token. -/
def wordsOfLine : (fuel : Nat) → Reading (List Word)
  | 0 => refuse "too deep"
  | fuel + 1 => do
    match (← token (innerList fuel) false false) with
    | .word w => return w :: (← wordsOfLine fuel)
    | _ => return []

/-- Reads the entries of a choice, up to and with its last word. -/
def entries : (fuel : Nat) → Reading (List (List Word × Option Command))
  | 0 => refuse "too deep"
  | fuel + 1 => do
    let inner := innerList fuel
    match (← token inner true true) with
    | .reserved "esac" => return []
    | t => do
      let first ← match t with
        | .sign "(" => token inner false false
        | t => pure t
      let patterns ← patterns fuel first
      expectLast (.sign ")")
      let body ← list fuel .optional none
      match (← token inner true true) with
      | .reserved "esac" => return [(patterns, body)]
      | _ => do
        expectLast (.sign ";;")
        return (patterns, body) :: (← entries fuel)

/-- Reads further patterns after the token `t`. -/
def patterns : (fuel : Nat) → Token → Reading (List Word)
  | 0, _ => refuse "too deep"
  | fuel + 1, t => do
    let inner := innerList fuel
    let word : Word := match t with
      | .word w => w
      | .reserved s => s.toList.map (Part.char · false)
      | _ => []
    match (← token inner false false) with
    | .sign "|" => do
      let next ← token inner false false
      return word :: (← patterns fuel next)
    | _ => return [word]

end

/-- The commands of the next line, if any; nothing more at the end of the text. -/
def nextLine (s : Source) : Except Fault (Option (Option Command) × Source) :=
  let reader : Reading (Option (Option Command)) := do
    modify fun s => { s with again := false }
    let found ← list (16 * s.rest.length + 64) .line none
    match found, (← get).token with
    | none, .endOfText => return none
    | found, _ => return some found
  reader s

end Growth.Shell
