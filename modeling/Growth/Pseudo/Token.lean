import Growth.Pseudo.Diagnostic
import Growth.Pseudo.Kind
import Growth.Text.Blank

/-! The tokens of a pseudocode text. A text is first cut into pieces, which are blanks, characters
that begin no word, and words. The pieces written one after the other are the text, and a piece's
place follows from the pieces before it. -/

namespace Growth.Pseudo

/-- A word of the text and where it begins. -/
structure Token where
  kind : Kind
  lexeme : String
  position : Position
deriving DecidableEq, Repr

/-- A piece of a text. -/
inductive Piece where
  | blank (c : Char)
  | stray (c : Char)
  | word (kind : Kind) (lexeme : String)
deriving DecidableEq, Repr

/-- The characters of a piece. -/
def Piece.chars : Piece → List Char
  | blank c => [c]
  | stray c => [c]
  | word _ lexeme => lexeme.toList

/-- Blanks between words; a backspace is one of them. -/
def isBlank (c : Char) : Bool :=
  Text.isBlank c || c == '\x08'

/-- Characters that begin a name. -/
def startsName (c : Char) : Bool :=
  c.isAlpha || c == '_'

/-- Characters that continue a name. -/
def continuesName (c : Char) : Bool :=
  c.isAlphanum || c == '_'

/-- The signs, as first character and further ones, each before its own beginnings. -/
def signs : List (Char × List Char × Kind) :=
  [('<', ['-'], .arrow), ('<', ['='], .relation .le), ('<', [], .relation .lt),
    ('>', ['='], .relation .ge), ('>', [], .relation .gt),
    ('=', ['='], .relation .eq), ('=', [], .relation .eq), ('!', ['='], .relation .ne),
    ('/', ['/'], .operator .quotient), ('/', [], .operator .divide),
    ('+', [], .operator .plus), ('-', [], .operator .minus), ('*', [], .operator .times),
    ('%', [], .operator .remainder), ('^', [], .operator .power),
    ('(', [], .openParen), (')', [], .closeParen), ('[', [], .openBracket),
    (']', [], .closeBracket), ('{', [], .openBrace), ('}', [], .closeBrace), (',', [], .comma)]

/-- The word that begins with `c` before `cs`: its kind and its characters after `c`. A plus or
minus before a digit belongs to the number where an operand is expected. -/
def word? (operand : Bool) (c : Char) (cs : List Char) : Option (Kind × List Char) :=
  if c.isDigit || (operand && (c == '+' || c == '-') && cs.head?.any Char.isDigit) then
    some (.number, cs.takeWhile Char.isDigit)
  else if startsName c then
    let more := cs.takeWhile continuesName
    some ((Kind.keyword? (String.ofList (c :: more))).getD .name, more)
  else
    (signs.find? fun s => s.1 == c && s.2.1.isPrefixOf cs).map fun s => (s.2.2, s.2.1)

/-- The pieces of a text. `operand` tells whether an operand is expected at its beginning. -/
def pieces (operand : Bool) : List Char → List Piece
  | [] => []
  | c :: cs =>
    if isBlank c then .blank c :: pieces operand cs
    else
      match word? operand c cs with
      | none => .stray c :: pieces operand cs
      | some (kind, more) =>
        .word kind (String.ofList (c :: more)) :: pieces (!kind.endsOperand) (cs.drop more.length)
termination_by cs => cs.length
decreasing_by all_goals (simp only [List.length_cons, List.length_drop]; omega)

/-- The pieces, each with the place where it begins, for pieces that begin at `p`. -/
def located (p : Position) : List Piece → List (Position × Piece)
  | [] => []
  | piece :: rest => (p, piece) :: located (p.after piece.chars) rest

/-- The pieces of a whole text with their places. -/
def locatedPieces (source : String) : List (Position × Piece) :=
  located .start (pieces true source.toList)

/-- The words of a text. -/
def tokens (source : String) : List Token :=
  (locatedPieces source).filterMap fun
    | (p, .word kind lexeme) => some ⟨kind, lexeme, p⟩
    | _ => none

/-- A diagnostic for each character that begins no word. -/
def strays (source : String) : List Diagnostic :=
  (locatedPieces source).filterMap fun
    | (p, .stray c) => some ⟨.illegal c, p⟩
    | _ => none

end Growth.Pseudo
