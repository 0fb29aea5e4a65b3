import Growth.Document.Sign

/-! Places in documents. Where something stands in its line decides what it belongs to. -/

namespace Growth.Document

/-- A place in a document: the text from there on, and how many characters, how many lines and how
many characters of its line come before it. -/
structure Cursor where
  rest : List Char
  index : Nat
  line : Nat
  column : Nat
deriving DecidableEq, Repr

namespace Cursor

/-- The beginning of a text. -/
def start (text : List Char) : Cursor :=
  ⟨text, 0, 0, 0⟩

/-- The place `n` characters further. -/
def skip (c : Cursor) : Nat → Cursor
  | 0 => c
  | n + 1 =>
    match c.rest with
    | [] => c
    | d :: rest =>
      if isBreak d then skip ⟨rest, c.index + 1, c.line + 1, 0⟩ n
      else skip ⟨rest, c.index + 1, c.line, c.column + 1⟩ n

/-- The place further on where `rest` is left. -/
def goTo (c : Cursor) (rest : List Char) : Cursor :=
  c.skip (c.rest.length - rest.length)

end Cursor

/-- What follows blanks, comments and line ends, and whether a line end was among them. A tab counts
as a blank only where `tabs` says so; after a line end, `later` says so. -/
def afterGap (tabs later comment : Bool) : List Char → Bool × List Char
  | [] => (false, [])
  | c :: cs =>
    if isBreak c then (true, (afterGap later later false cs).2)
    else if comment || c == '#' then afterGap tabs later true cs
    else if c == ' ' || c == '\t' && tabs then afterGap tabs later false cs
    else (false, c :: cs)

end Growth.Document
