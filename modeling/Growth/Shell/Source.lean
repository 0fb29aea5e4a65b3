import Growth.Shell.Command

/-! Texts of programs on the way to commands. -/

namespace Growth.Shell

/-- Why a text is no command: what is said about it, and the line. -/
structure Fault where
  line : Nat
  text : String
deriving Repr

/-- A token. -/
inductive Token where
  | word (parts : Word)
  | reserved (name : String)
  /-- A semicolon, a bracket or a sign that joins commands. -/
  | sign (text : String)
  /-- The sign of a redirection with its stream, before the word for its target. -/
  | redirection (stream : Nat) (sign : String)
  | newline
  | endOfText

/-- What the token is called. -/
def Token.title : Token → String
  | word _ => "word"
  | reserved name => s!"\"{name}\""
  | sign text => s!"\"{text}\""
  | redirection _ _ => "redirection"
  | newline => "newline"
  | endOfText => "end of file"

/-- A document whose lines come after the end of a line that has been begun. -/
structure Awaited where
  key : Nat
  /-- The line that ends it. -/
  mark : String
  /-- Tabs at the beginning of its lines do not count. -/
  withoutTabs : Bool
  /-- Nothing in it stands for anything else. -/
  literal : Bool

/-- What is left of a text, the number of its line, the last token, which may have to be read again,
the documents still to come and those that have come. -/
structure Source where
  rest : List Char
  line : Nat
  token : Token
  again : Bool
  awaited : List Awaited
  documents : List (Nat × Word)

/-- Reading, which takes from a text and may find a fault. -/
abbrev Reading := StateT Source (Except Fault)

namespace Source

/-- At the beginning of a text, where some documents are known already. -/
def ofText (text : List Char) (documents : List (Nat × Word)) : Source :=
  ⟨text, 1, .newline, false, [], documents⟩

end Source

/-- Gives up at the present line. -/
def refuse {α : Type} (text : String) : Reading α := do
  throw ⟨(← get).line, s!"Syntax error: {text}"⟩

/-- Gives up because of the last token, where another might have been expected. -/
def refuseToken {α : Type} (expected : Option Token) : Reading α := do
  let found := (← get).token.title
  match expected with
  | none => refuse s!"{found} unexpected"
  | some t => refuse s!"{found} unexpected (expecting {t.title})"

/-- What follows line ends that a backslash takes away, and how many there were. -/
def afterJoints : List Char → List Char × Nat
  | '\\' :: '\n' :: cs =>
    let (rest, n) := afterJoints cs
    (rest, n + 1)
  | cs => (cs, 0)

/-- The next characters after joints. -/
def upcoming : Reading (List Char) := do
  let s ← get
  let (rest, n) := afterJoints s.rest
  set { s with rest, line := s.line + n }
  return rest

/-- Goes on to where `rest` is left. -/
def goTo (rest : List Char) : Reading Unit :=
  modify fun s => { s with rest }

/-- Counts the end of a line. -/
def endLine : Reading Unit :=
  modify fun s => { s with line := s.line + 1 }

end Growth.Shell
