import Growth.Code.Token
import Growth.Text.Letter

/-! The words of target code by their characters alone: identifiers, numbers, strings and signs. -/

namespace Growth.Code

/-- Characters that begin an identifier. -/
def startsName (c : Char) : Bool :=
  Text.isLetter c || c == '_'

/-- Characters that continue an identifier. -/
def continuesName (c : Char) : Bool :=
  Text.isLetterOrNumber c || c == '_'

/-- The kind of a word: a keyword or an identifier. -/
def nameKind (word : String) : Kind :=
  match Keyword.table.lookup word with
  | some k => .keyword k
  | none => .identifier word

/-- Whether `cs`, after the letter of an exponent, begins with a whole number. -/
def startsExponent : List Char → Bool
  | '+' :: cs | '-' :: cs => cs.head?.any Char.isDigit
  | cs => cs.head?.any Char.isDigit

/-- The characters at the beginning of a text that belong to a number, and whether a point or an
exponent is among them. `fractional` tells whether one of these came before, and `letter` whether
the letter of an exponent came just before, after which there may be a sign. There is one point at
most and none after an exponent. -/
def numeral (fractional letter : Bool) : List Char → List Char × Bool
  | [] => ([], fractional)
  | c :: cs =>
    if c.isDigit || c == '_' || letter && (c == '+' || c == '-') then
      let (more, f) := numeral fractional false cs
      (c :: more, f)
    else if c == '.' && !fractional then
      let (more, f) := numeral true false cs
      (c :: more, f)
    else if (c == 'e' || c == 'E') && startsExponent cs then
      let (more, f) := numeral true true cs
      (c :: more, f)
    else ([], fractional)

/-- Whether two underscores stand side by side in `cs`. -/
def hasDoubleUnderscore : List Char → Bool
  | '_' :: '_' :: _ => true
  | _ :: cs => hasDoubleUnderscore cs
  | [] => false

/-- Whether a number in decimal digits begins with a zero that it does not need. -/
def hasLeadingZero (digits : List Char) : Bool :=
  1 < digits.length && digits.head? == some '0' && digits.any (· != '0')

/-- The kind of a number, if it is well formed. Underscores in it do not count as digits. -/
def numberKind? (literal : List Char) (fractional : Bool) : Option Kind :=
  let digits := literal.filter (· != '_')
  if fractional then (Decimal.read? digits).map fun d => .float (.ofDecimal d)
  else if literal.getLast? == some '_' || hasDoubleUnderscore literal || hasLeadingZero digits then
    none
  else some (.integer (String.ofList literal))

/-- The characters up to `quote`, and whether it is there. The character after a backslash is never
the closing quote; `escaped` tells whether a backslash came just before. A string ends with its
line. -/
def quotation (quote : Char) (escaped : Bool) : List Char → List Char × Bool
  | [] => ([], false)
  | c :: cs =>
    if c == '\n' then ([], false)
    else if c == quote && !escaped then ([], true)
    else
      let (more, closed) := quotation quote (c == '\\' && !escaped) cs
      (c :: more, closed)

/-- The sign at the beginning of `cs`, and its characters. -/
def mark? (cs : List Char) : Option (List Char × Mark) :=
  Mark.table.find? fun entry => entry.1.isPrefixOf cs

/-- What stands at the beginning of a text that begins with no blank. -/
inductive Lexeme where
  /-- A token and its characters. -/
  | token (kind : Kind) (chars : List Char)
  /-- A sign and its characters. -/
  | sign (mark : Mark) (chars : List Char)
  /-- Characters that look like a number and are none. -/
  | badNumber (chars : List Char)
  /-- A string that is not closed on its line. -/
  | openString (chars : List Char)
  /-- A character that begins nothing. -/
  | stray (c : Char)

/-- The lexeme at the beginning of `c :: cs`. -/
def lexeme (c : Char) (cs : List Char) : Lexeme :=
  if c == '"' || c == '\'' then
    match quotation c false cs with
    | (content, true) => .token (.string (String.ofList content)) (c :: content ++ [c])
    | (content, false) => .openString (c :: content)
  else if startsName c then
    let word := c :: cs.takeWhile continuesName
    .token (nameKind (String.ofList word)) word
  else if c.isDigit || c == '.' && cs.head?.any Char.isDigit then
    let (literal, fractional) := numeral false false (c :: cs)
    match numberKind? literal fractional with
    | some kind => .token kind literal
    | none => .badNumber literal
  else
    match mark? (c :: cs) with
    | some (chars, m) => .sign m chars
    | none => .stray c

end Growth.Code
