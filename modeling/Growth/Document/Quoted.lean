import Growth.Document.Scalar

/-! Scalars between quotes. Blanks and line ends before the closing quote count. No mark of a document
may stand at the beginning of a line in between. -/

namespace Growth.Document

/-- The text up to the closing single quote after the gap `gap`, and what follows it. A quote written
twice is one quote. -/
def singleQuoted (gap : Gap) : List Char → Option (List Char × List Char)
  | [] => none
  | '\'' :: '\'' :: cs =>
    (singleQuoted .empty cs).map fun (more, rest) => (gap.text ++ '\'' :: more, rest)
  | '\'' :: cs => some (gap.text, cs)
  | c :: cs =>
    if isBreak c && startsMark cs then none
    else if isBreak c || isBlank c then singleQuoted (gap.add c) cs
    else (singleQuoted .empty cs).map fun (more, rest) => (gap.text ++ c :: more, rest)

/-- What the letter after a backslash stands for. -/
def escapes : List (Char × Nat) :=
  [('0', 0), ('a', 7), ('b', 8), ('t', 9), ('\t', 9), ('n', 10), ('v', 11), ('f', 12), ('r', 13),
    ('e', 27), (' ', 32), ('"', 34), ('/', 47), ('\\', 92), ('N', 0x85), ('_', 0xA0), ('L', 0x2028),
    ('P', 0x2029)]

/-- How many digits follow the letter after a backslash. -/
def escapeWidths : List (Char × Nat) :=
  [('x', 2), ('u', 4), ('U', 8)]

/-- Where reading between double quotes stands. -/
inductive QuoteState where
  | text (gap : Gap)
  | backslash
  /-- `left` digits of a character's number are still to come. -/
  | digits (left value : Nat)
deriving DecidableEq

/-- The text up to the closing double quote, and what follows it. A backslash before a line end takes
that line end away. -/
def doubleQuoted (state : QuoteState) : List Char → Option (List Char × List Char)
  | [] => none
  | c :: cs =>
    match state with
    | .text gap =>
      if c == '"' then some (gap.text, cs)
      else if c == '\\' then
        (doubleQuoted .backslash cs).map fun (more, rest) => (gap.text ++ more, rest)
      else if isBreak c && startsMark cs then none
      else if isBreak c || isBlank c then doubleQuoted (.text (gap.add c)) cs
      else (doubleQuoted (.text .empty) cs).map fun (more, rest) => (gap.text ++ c :: more, rest)
    | .backslash =>
      if isBreak c then
        if startsMark cs then none else doubleQuoted (.text (.lines none [])) cs
      else
        match escapes.lookup c, escapeWidths.lookup c with
        | some n, _ =>
          (doubleQuoted (.text .empty) cs).map fun (more, rest) => (Char.ofNat n :: more, rest)
        | none, some width => doubleQuoted (.digits width 0) cs
        | none, none => none
    | .digits left value =>
      match hexDigit? c with
      | none => none
      | some d =>
        if left ≤ 1 then
          (charOf? (16 * value + d)).bind fun e =>
            (doubleQuoted (.text .empty) cs).map fun (more, rest) => (e :: more, rest)
        else doubleQuoted (.digits (left - 1) (16 * value + d)) cs

end Growth.Document
