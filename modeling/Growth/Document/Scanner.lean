import Growth.Document.Block
import Growth.Document.Cursor
import Growth.Document.Plain
import Growth.Document.Quoted
import Growth.Document.Token

/-! From text to tokens. That something was a name only shows at the colon after it, so the scanner
remembers where a name may have begun and puts the token for it there later. Documents hold no lists,
and no mapping inside another. -/

namespace Growth.Document

/-- Where a name may have begun. -/
structure Candidate where
  start : Cursor
  /-- How many tokens come before it. -/
  place : Nat
  /-- Nothing but a name can stand there. -/
  required : Bool
deriving DecidableEq, Repr

/-- A place in a document, the tokens before it, and what is open there. -/
structure Scanner where
  cursor : Cursor
  /-- The tokens so far, the last of them first. -/
  tokens : List Token
  /-- Inside braces. -/
  braced : Bool
  /-- How far lines have to be indented to belong to an entry of the open mapping; zero if no mapping
  in lines is open. -/
  least : Nat
  /-- A name may begin here. -/
  fresh : Bool
  candidate : Option Candidate
deriving DecidableEq, Repr

namespace Scanner

/-- At the beginning of a text. A byte order mark there is no part of the document, but it takes up its
place in the line. -/
def ofText (text : List Char) : Scanner :=
  let cursor := Cursor.start text
  let marked := text.head?.any (·.toNat == 0xFEFF)
  ⟨if marked then cursor.skip 1 else cursor, [], false, 0, true, none⟩

/-- With one more token. -/
def emit (s : Scanner) (t : Token) : Scanner :=
  { s with tokens := t :: s.tokens }

/-- With a token put after the first `place` ones. -/
def insert (s : Scanner) (t : Token) (place : Nat) : Scanner :=
  let later := s.tokens.length - place
  { s with tokens := s.tokens.take later ++ t :: s.tokens.drop later }

/-- With the token and past the `n` characters that it takes up. -/
def past (s : Scanner) (n : Nat) (t : Token) : Scanner :=
  { s.emit t with cursor := s.cursor.skip n }

/-- With the piece and at the place where `rest` is left. -/
def pastPiece (s : Scanner) (p : Piece) (rest : List Char) : Scanner :=
  { s.emit (.piece p) with cursor := s.cursor.goTo rest }

/-! ### Names -/

/-- Gives up that a name began. -/
def withoutCandidate? (s : Scanner) : Option Scanner :=
  if s.candidate.any (·.required) then none else some { s with candidate := none }

/-- Remembers that a name may begin here. In a mapping in lines, what stands where its names stand has to
be one. -/
def withCandidate? (s : Scanner) : Option Scanner :=
  if s.fresh then
    s.withoutCandidate?.map fun s =>
      let required := !s.braced && s.least == s.cursor.column + 1
      { s with candidate := some ⟨s.cursor, s.tokens.length, required⟩, fresh := false }
  else some s

/-- Gives up that a name began if it would be too long: it has to end in its line and within 1024
characters. -/
def withTimelyCandidate? (s : Scanner) : Option Scanner :=
  let isLate (k : Candidate) : Bool :=
    k.start.line < s.cursor.line || k.start.index + 1024 < s.cursor.index
  if s.candidate.any isLate then s.withoutCandidate? else some s

/-! ### Mappings in lines -/

/-- Opens a mapping whose names stand in `column`, after the first `place` tokens, if none is open. -/
def openMapping? (s : Scanner) (column place : Nat) : Option Scanner :=
  if s.braced then some s
  else if s.least = 0 then some ({ s with least := column + 1 }.insert .mappingStart place)
  else if s.least ≤ column then none
  else some s

/-- Closes the mapping if it is open. -/
def closeMapping (s : Scanner) : Scanner :=
  if s.least = 0 then s else { s.emit .mappingEnd with least := 0 }

/-! ### Between tokens -/

/-- At the next token or the end, where the mapping is closed if the indentation says so. -/
def atToken? (s : Scanner) : Option Scanner :=
  let (lineEnded, rest) := afterGap (s.braced || !s.fresh) s.braced false s.cursor.rest
  let s :=
    { s with cursor := s.cursor.goTo rest, fresh := s.fresh || lineEnded && !s.braced }
  s.withTimelyCandidate?.map fun s =>
    if !s.braced && s.cursor.column + 1 < s.least then s.closeMapping else s

/-! ### Tokens -/

/-- Past a directive. -/
def takeDirective? (s : Scanner) (cs : List Char) : Option Scanner :=
  s.closeMapping.withoutCandidate?.bind fun s =>
    (directive? cs).map fun (d, rest) =>
      { s.emit (.directive d) with cursor := s.cursor.goTo rest, fresh := false }

/-- Past a mark of the document. -/
def takeMark? (s : Scanner) (t : Token) : Option Scanner :=
  s.closeMapping.withoutCandidate?.map fun s => { s.past 3 t with fresh := false }

/-- Past an opening brace. -/
def takeOpenBrace? (s : Scanner) : Option Scanner :=
  if s.braced || s.least ≠ 0 then none
  else some { s.past 1 .openBrace with braced := true, fresh := true, candidate := none }

/-- Past a closing brace. -/
def takeCloseBrace? (s : Scanner) : Option Scanner :=
  if s.braced then
    some { s.past 1 .closeBrace with braced := false, fresh := false, candidate := none }
  else none

/-- Past a comma. -/
def takeComma? (s : Scanner) : Option Scanner :=
  if s.braced then some { s.past 1 .comma with fresh := true, candidate := none } else none

/-- Past a question mark, which begins a name. -/
def takeKey? (s : Scanner) : Option Scanner :=
  if !s.braced && !s.fresh then none
  else
    (s.openMapping? s.cursor.column s.tokens.length).bind fun s =>
    s.withoutCandidate?.map fun s => { s.past 1 .key with fresh := !s.braced }

/-- Past a colon, which ends a name or stands where its line begins. -/
def takeValue? (s : Scanner) : Option Scanner :=
  match s.candidate with
  | some k =>
    let s := { s with candidate := none, fresh := false }.insert .key k.place
    (s.openMapping? k.start.column k.place).map fun s => s.past 1 .value
  | none =>
    if !s.braced && !s.fresh then none
    else
      (s.openMapping? s.cursor.column s.tokens.length).map fun s =>
        { s.past 1 .value with fresh := !s.braced }

/-- Whether a reference or an anchor may end before `cs`. -/
def endsReference (cs : List Char) : Bool :=
  startsGap cs || cs.head?.any fun c => "?:,]\x7d%@".contains c || c.toNat == 0x60

/-- Past a reference or an anchor, whose name is at the beginning of `cs`. -/
def takeNamed? (s : Scanner) (piece : List Char → Piece) (cs : List Char) : Option Scanner :=
  let name := cs.takeWhile isNameChar
  let rest := cs.drop name.length
  if name.isEmpty || !endsReference rest then none
  else s.withCandidate?.map fun s => { s.pastPiece (piece name) rest with fresh := false }

/-- Past a tag. -/
def takeTag? (s : Scanner) (cs : List Char) : Option Scanner :=
  (tag? cs).bind fun (t, rest) =>
    if startsGap rest || s.braced && rest.head? == some ',' then
      s.withCandidate?.map fun s => { s.pastPiece (.tag t) rest with fresh := false }
    else none

/-- Past a block of lines. -/
def takeBlock? (s : Scanner) (style : Style) (cs : List Char) : Option Scanner :=
  if s.braced then none
  else
    s.withoutCandidate?.bind fun s =>
      (block? (style == .folded) s.least cs).map fun (text, rest) =>
        { s.pastPiece (.scalar text style) rest with fresh := true }

/-- Past a quoted text. -/
def takeQuoted? (s : Scanner) (found : Option (List Char × List Char)) : Option Scanner :=
  found.bind fun (text, rest) =>
    s.withCandidate?.map fun s => { s.pastPiece (.scalar text .quoted) rest with fresh := false }

/-- Past a plain word. After its last line a name may begin. -/
def takePlain? (s : Scanner) (cs : List Char) : Option Scanner :=
  (plainWord s.braced s.least .empty s.cursor.column cs).bind fun w =>
    s.withCandidate?.map fun s =>
      { s.pastPiece (.scalar w.text .plain) w.rest with fresh := w.lineEnded }

/-- Past the token that begins with `c` before `cs`. -/
def takeToken? (s : Scanner) (c : Char) (cs : List Char) : Option Scanner :=
  if s.cursor.column == 0 && c == '%' then s.takeDirective? cs
  else if s.cursor.column == 0 && hasMark '-' (c :: cs) then s.takeMark? .documentStart
  else if s.cursor.column == 0 && hasMark '.' (c :: cs) then s.takeMark? .documentEnd
  else if startsPlain s.braced c cs then s.takePlain? (c :: cs)
  else
    match c with
    | '\x7b' => s.takeOpenBrace?
    | '\x7d' => s.takeCloseBrace?
    | ',' => s.takeComma?
    | '?' => s.takeKey?
    | ':' => s.takeValue?
    | '*' => s.takeNamed? .reference cs
    | '&' => s.takeNamed? .anchor cs
    | '!' => s.takeTag? cs
    | '|' => s.takeBlock? .literal cs
    | '>' => s.takeBlock? .folded cs
    | '\'' => s.takeQuoted? (singleQuoted .empty cs)
    | '"' => s.takeQuoted? (doubleQuoted (.text .empty) cs)
    | _ => none

/-- All tokens of the document. Every token takes up a character at least. -/
def tokens? (s : Scanner) : Option (List Token) :=
  match s.atToken? with
  | none => none
  | some here =>
    match here.cursor.rest with
    | [] => here.withoutCandidate?.map fun s => s.closeMapping.tokens.reverse
    | c :: cs =>
      match here.takeToken? c cs with
      | none => none
      | some next =>
        if next.cursor.rest.length < s.cursor.rest.length then next.tokens? else none
termination_by s.cursor.rest.length

end Scanner

end Growth.Document
