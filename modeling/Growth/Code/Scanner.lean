import Growth.Code.Lexeme

/-! From text to tokens. A scanner stands somewhere in a text, knows the widths of the blocks and the
brackets that are open there, and gives one token or one error at a time. -/

namespace Growth.Code

/-- What can be wrong with the text. -/
inductive ScanError where
  | invalidDedent (width line : Nat)
  | unexpectedCharacter (c : Char) (p : Position)
  | invalidNumber (literal : String) (p : Position)
  | unterminatedString (p : Position)
  | unbalancedBracket (b : Bracket) (p : Position)
deriving DecidableEq, Repr

/-- The error in words. -/
def ScanError.message : ScanError → String
  | invalidDedent width line => s!"Invalid dedent to column {width} at line {line}"
  | unexpectedCharacter c p => s!"Unexpected character '{c}' at {p.text}"
  | invalidNumber literal p => s!"Invalid number literal '{literal}' at {p.text}"
  | unterminatedString p => s!"Unterminated string literal at {p.text}"
  | unbalancedBracket b p => s!"Unbalanced '{b.closing}' at {p.text}"

/-- Blanks inside a line. -/
def isInlineBlank (c : Char) : Bool :=
  c == ' ' || c == '\t' || c == '\r' || c == '\x0c'

/-- Where a character between tokens stands. -/
inductive Between where
  | blanks
  /-- In a comment. -/
  | comment
  /-- After a backslash that stands before a line end. -/
  | backslash
deriving DecidableEq

/-- The characters at the beginning of a text that stand between tokens: blanks, comments and line
ends after a backslash, and inside brackets every line end. -/
def gap (bracketed : Bool) (between : Between) : List Char → List Char
  | [] => []
  | c :: cs =>
    if c == '\n' then
      if bracketed || between = .backslash then c :: gap bracketed .blanks cs else []
    else if between = .comment || c == '#' then c :: gap bracketed .comment cs
    else if isInlineBlank c then c :: gap bracketed .blanks cs
    else if c == '\\' && cs.head? == some '\n' then c :: gap bracketed .backslash cs
    else []

/-- The width to which a blank brings a line of width `width`. -/
def widened (width : Nat) (c : Char) : Nat :=
  if c == ' ' then width + 1
  else if c == '\t' then (width / 8 + 1) * 8
  else if c == '\x0c' then 0
  else width

/-- The characters before the first token of the next line that has one, and how far the line is
indented; no width if there is no such line. -/
def margin (width : Nat) (comment : Bool) : List Char → List Char × Option Nat
  | [] => ([], none)
  | c :: cs =>
    if c == '\n' then
      let (more, w) := margin 0 false cs
      (c :: more, w)
    else if comment || c == '#' then
      let (more, w) := margin width true cs
      (c :: more, w)
    else if isInlineBlank c then
      let (more, w) := margin (widened width c) false cs
      (c :: more, w)
    else ([], some width)

/-- A place in a text and what is open there. -/
structure Scanner where
  /-- The text from here on. -/
  rest : List Char
  place : Place
  /-- The widths of the open blocks, the innermost first. -/
  widths : List Nat
  /-- Tokens that come before the rest of the text. -/
  pending : List Token
  /-- The open brackets, the innermost first. -/
  brackets : List Bracket
  /-- A line begins here. -/
  atLineStart : Bool
  /-- The line has a token already. -/
  lineHasTokens : Bool
  /-- The end of the text has been reported. -/
  finished : Bool

namespace Scanner

/-- At the beginning of a text. -/
def ofText (source : String) : Scanner :=
  ⟨source.toList, .start, [], [], [], true, false, false⟩

/-- After the characters `chars`, with which the rest begins. -/
def skip (s : Scanner) (chars : List Char) : Scanner :=
  { s with rest := s.rest.drop chars.length, place := s.place.after chars }

/-- A token of the kind that takes up no characters. -/
def emptyToken (s : Scanner) (kind : Kind) : Token :=
  ⟨kind, s.place, s.place.offset⟩

/-- Closes `blocks`: as many tokens are pending as there are blocks. -/
def close (s : Scanner) (blocks : List Nat) : Scanner :=
  { s with pending := blocks.map fun _ => s.emptyToken .dedent }

/-- The first pending token, or else the outcome of `otherwise`. -/
def deliver (s : Scanner) (otherwise : Scanner → Except ScanError Token × Scanner) :
    Except ScanError Token × Scanner :=
  match s.pending with
  | t :: pending => (.ok t, { s with pending })
  | [] => otherwise s

/-- A token of the kind with the characters `chars`. -/
def take (s : Scanner) (kind : Kind) (chars : List Char) : Except ScanError Token × Scanner :=
  let after := s.skip chars
  (.ok ⟨kind, s.place, after.place.offset⟩, { after with lineHasTokens := true })

/-- A sign; brackets are opened and closed. A bracket that does not match is left where it is, and
the one it should have matched is given up. -/
def takeSign (s : Scanner) (m : Mark) (chars : List Char) : Except ScanError Token × Scanner :=
  match m with
  | .opening b => { s with brackets := b :: s.brackets }.take (.mark m) chars
  | .closing b =>
    let inner := { s with brackets := s.brackets.tail }
    if s.brackets.head? = some b then inner.take (.mark m) chars
    else (.error (.unbalancedBracket b s.place.position), inner)
  | _ => s.take (.mark m) chars

/-- The end of the text: the last line and all blocks are closed. -/
def finish (s : Scanner) : Except ScanError Token × Scanner :=
  let s := { s.close s.widths with widths := [], finished := true }
  if s.lineHasTokens then (.ok (s.emptyToken .newline), { s with lineHasTokens := false })
  else s.deliver fun s => (.ok (s.emptyToken .endOfFile), s)

/-- The next token in a line. -/
def inLine (s : Scanner) : Except ScanError Token × Scanner :=
  let s := s.skip (gap (!s.brackets.isEmpty) .blanks s.rest)
  match s.rest with
  | [] => s.finish
  | c :: cs =>
    if c == '\n' then
      let after := s.skip [c]
      (.ok ⟨.newline, s.place, after.place.offset⟩,
        { after with atLineStart := true, lineHasTokens := false })
    else
      match lexeme c cs with
      | .token kind chars => s.take kind chars
      | .sign m chars => s.takeSign m chars
      | .badNumber chars =>
        (.error (.invalidNumber (String.ofList chars) s.place.position), s.skip chars)
      | .openString chars => (.error (.unterminatedString s.place.position), s.skip chars)
      | .stray c => (.error (.unexpectedCharacter c s.place.position), s)

/-- The first token in a line of width `width`: a block is opened, or blocks are closed, or neither.
Blocks are closed down to the line's width, which has to be that of an open block. -/
def indented (s : Scanner) (width : Nat) : Except ScanError Token × Scanner :=
  if s.widths.headD 0 < width then
    (.ok (s.emptyToken .indent), { s with widths := width :: s.widths })
  else
    let (closed, left) := s.widths.span (width < ·)
    let s := { s.close closed with widths := left }
    if left.headD 0 = width then s.deliver inLine
    else (.error (.invalidDedent width s.place.position.line), s)

/-- The next token or error. After the end of the text, that end is given again and again. -/
def next (s : Scanner) : Except ScanError Token × Scanner :=
  s.deliver fun s =>
    if s.finished then (.ok (s.emptyToken .endOfFile), s)
    else if s.atLineStart then
      let (chars, width) := margin 0 false s.rest
      let s := { s.skip chars with atLineStart := false }
      match width with
      | none => s.inLine
      | some width => s.indented width
    else s.inLine

/-- The next `n` tokens or errors. -/
def steps (s : Scanner) : Nat → List (Except ScanError Token)
  | 0 => []
  | n + 1 => s.next.1 :: s.next.2.steps n

end Scanner

end Growth.Code
