/-! Shell commands and the words in them. Texts are lists of octets, each of which stands as the
character with its number. -/

namespace Growth.Shell

/-- How a file is opened. -/
inductive Opening where
  | reading
  | writing
  | appending
  | readingAndWriting
deriving DecidableEq, Repr

/-- What another text is for where a parameter may be missing. -/
inductive Fallback where
  /-- It stands in for what is missing. -/
  | instead
  /-- It stands in for what is there. -/
  | alternative
  /-- It becomes the value of what is missing. -/
  | assigned
  /-- It tells that something is missing, which is an error. -/
  | refused
deriving DecidableEq, Repr

mutual

/-- A part of a word. What is quoted is kept as it is; what is not may be split into several words and
may be a pattern. -/
inductive Part where
  | char (c : Char) (quoted : Bool)
  /-- The quotes around a text, which make a word of it even if it is empty. -/
  | quotes
  | value (name : String) (quoted : Bool)
  | length (name : String) (quoted : Bool)
  /-- A value that may be missing, or also empty if `emptyToo`, and the other text. -/
  | fallback (name : String) (kind : Fallback) (emptyToo : Bool) (other : List Part) (quoted : Bool)
  /-- A value without what matches a pattern at its end or its beginning. -/
  | trimmed (name : String) (atEnd longest : Bool) (pattern : List Part) (quoted : Bool)
  /-- What has the form of a parameter and is none. -/
  | malformed
  /-- What a command writes, if there is one. -/
  | output (c : Option Command) (quoted : Bool)
  /-- The value of an expression. -/
  | arithmetic (expression : List Part) (quoted : Bool)

/-- Where a command reads from and writes to. -/
inductive Redirection where
  | file (stream : Nat) (how : Opening) (target : List Part)
  | copy (stream : Nat) (source : List Part)
  /-- The document with a number. -/
  | document (stream : Nat) (key : Nat)

/-- A command. -/
inductive Command where
  | simple (line : Nat) (assignments : List (String × List Part)) (words : List (List Part))
      (redirections : List Redirection)
  | negated (c : Command)
  | both (first second : Command)
  | either (first second : Command)
  | sequence (first second : Command)
  /-- Commands each of which reads what the one before it writes. -/
  | pipeline (cs : List Command)
  /-- A command that is not waited for. -/
  | aside (c : Command)
  /-- A command in a shell of its own. -/
  | apart (c : Command)
  | branch (test body : Command) (other : Option Command)
  /-- Repeats the body as long as the test succeeds, or as long as it fails if `untilSuccess`. -/
  | loop (untilSuccess : Bool) (test body : Command)
  | each (line : Nat) (name : String) (words : List (List Part)) (body : Command)
  /-- The body of the first entry with a pattern that the word matches. -/
  | choice (line : Nat) (word : List Part) (entries : List (List (List Part) × Option Command))
  | function (name : String) (body : Command)
  | redirected (line : Nat) (c : Command) (redirections : List Redirection)

end

/-- A word. -/
abbrev Word := List Part

instance : Inhabited Command := ⟨.simple 0 [] [] []⟩

/-- The characters of a word without quotes and parameters. -/
def literal? (w : Word) : Option String :=
  (w.mapM fun
    | Part.char c false => some c
    | _ => none).map String.ofList

/-- Whether a character begins a name. -/
def startsName (c : Char) : Bool :=
  c.isAlpha || c == '_'

/-- Whether a character may stand in a name. -/
def isNameChar (c : Char) : Bool :=
  c.isAlphanum || c == '_'

/-- Whether a text is a name. -/
def isName (s : String) : Bool :=
  s.toList.head?.any startsName && s.toList.all isNameChar

/-- The names of parameters that are signs. -/
def isSpecial (c : Char) : Bool :=
  "#?$!-*@".contains c || c.isDigit

end Growth.Shell
