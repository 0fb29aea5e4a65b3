import Growth.Document.Scalar

/-! Blocks of lines as scalars. The lines are indented; what they are indented by does not count. -/

namespace Growth.Document

/-- A line of a text and the character that ends it, which the last line may lack. -/
structure Line where
  text : List Char
  ending : List Char
deriving DecidableEq, Repr

/-- The lines of a text. -/
def lines : List Char → List Line
  | [] => []
  | c :: cs =>
    if isBreak c then ⟨[], [c]⟩ :: lines cs
    else
      match lines cs with
      | [] => [⟨[c], []⟩]
      | line :: more => ⟨c :: line.text, line.ending⟩ :: more

/-- The text of lines. -/
def joined (ls : List Line) : List Char :=
  ls.flatMap fun line => line.text ++ line.ending

/-- What becomes of the line ends at the end of a block. -/
inductive Chomping where
  | strip | clip | keep
deriving DecidableEq, Repr

/-- The header of a block after its sign: what becomes of its end, and by how much it is indented, if
that is said. -/
def blockHeader? (cs : List Char) : Option (Chomping × Option Nat) :=
  let signs := cs.takeWhile fun c => c == '+' || c == '-' || c.isDigit
  let rest := (cs.drop signs.length).dropWhile isBlank
  let chomping (c : Char) : Chomping := if c == '+' then .keep else .strip
  let width (c : Char) : Option Nat := some (c.toNat - '0'.toNat)
  if !(rest.isEmpty || rest.head? == some '#') then none
  else
    match signs with
    | [] => some (.clip, none)
    | [c] =>
      if c == '0' then none else if c.isDigit then some (.clip, width c) else some (chomping c, none)
    | [c, d] =>
      if c.isDigit && !d.isDigit && c != '0' then some (chomping d, width c)
      else if !c.isDigit && d.isDigit && d != '0' then some (chomping c, width d)
      else none
    | _ => none

/-- How far the lines of a block are indented if that is not said: as far as the first that has text,
or as any before it. A tab may not be among the blanks that tell it. -/
def blockIndent? (least : Nat) : List Line → Option Nat
  | [] => some least
  | line :: more =>
    let text := line.text.dropWhile (· == ' ')
    let width := line.text.length - text.length
    match text with
    | [] => (blockIndent? least more).map (max width)
    | c :: _ => if c == '\t' then none else some (max least width)

/-- The lines of a block without their indentation, and the lines after it. The block ends at a line
that is indented less, which may not be by a tab. -/
def blockLines? (indent : Nat) : List Line → Option (List Line × List Line)
  | [] => some ([], [])
  | line :: more =>
    let width := ((line.text.take indent).takeWhile (· == ' ')).length
    let text := line.text.drop width
    if text.isEmpty || width = indent then
      (blockLines? indent more).map fun (content, left) => (⟨text, line.ending⟩ :: content, left)
    else if text.head? == some '\t' then none
    else some ([], line :: more)

/-- The text of the lines of a block, after a line with text that ended in `ending` and empty ones that
ended in `further`. Lines are folded if `fold`, except around one that begins with a blank; the last one
did if `indented`. -/
def blockText (fold : Bool) (chomping : Chomping) (ending further : List Char) (indented : Bool) :
    List Line → List Char
  | [] =>
    match chomping with
    | .strip => []
    | .clip => ending
    | .keep => ending ++ further
  | ⟨[], e⟩ :: more => blockText fold chomping ending (further ++ e) indented more
  | ⟨c :: text, e⟩ :: more =>
    let between :=
      if fold && ending == ['\n'] && !indented && !isBlank c then
        if further.isEmpty then [' '] else further
      else ending ++ further
    between ++ c :: text ++ blockText fold chomping e [] (isBlank c) more

/-- The text of the block that begins after its sign, and what follows it. Its lines are indented by
`least` or more. -/
def block? (fold : Bool) (least : Nat) (cs : List Char) : Option (List Char × List Char) :=
  let header := cs.takeWhile (!isBreak ·)
  let body := (lines (cs.drop header.length)).tail
  (blockHeader? header).bind fun (chomping, width) =>
  let indent := match width with
    | some n => some (least - 1 + n)
    | none => blockIndent? (max least 1) body
  (indent.bind (blockLines? · body)).map fun (content, left) =>
    (blockText fold chomping [] [] false content, joined left)

end Growth.Document
