/-! Texts as values in a block mapping. A text is written as it is where it could not be read as
anything else; otherwise between quotes, or as a block of lines. -/

namespace Growth.Report

/-- Characters that end a line. -/
def isBreak (c : Char) : Bool :=
  c == '\n' || c == '\r' || c.toNat == 0x85 || c.toNat == 0x2028 || c.toNat == 0x2029

/-- Characters that are written as they are. -/
def isPrintable (c : Char) : Bool :=
  c == '\n' || (0x20 ≤ c.toNat && c.toNat ≤ 0x7E) ||
    (0xA0 ≤ c.toNat && c.toNat ≤ 0xFFFD && c.toNat != 0xFEFF)

/-- Whether `cs` begins with a blank or a line end, or is empty. -/
def startsBlank : List Char → Bool
  | [] => true
  | c :: _ => c == ' ' || c == '\t' || c.toNat == 0 || isBreak c

/-- Whether a character for which `p` holds stands before one for which `q` holds. -/
def hasPair (p q : Char → Bool) : List Char → Bool
  | c :: d :: cs => p c && q d || hasPair p q (d :: cs)
  | _ => false

/-- Whether a colon stands before a blank, or a number sign after one. -/
def hasInnerSign : List Char → Bool
  | [] => false
  | c :: cs =>
    c == ':' && startsBlank cs || startsBlank [c] && cs.head? == some '#' || hasInnerSign cs

/-- Whether a text begins with a sign that begins something else, or holds one that ends it. -/
def hasSign : List Char → Bool
  | [] => false
  | c :: cs =>
    "#,[]\x7b\x7d&*!|>'\"%@".contains c || c.toNat == 0x60 ||
      (c == '?' || c == '-') && startsBlank cs || hasInnerSign (c :: cs)

/-- Words that stand for truth values or for nothing. They are read so only in some spellings, but no
spelling of the first of them is written as it is. -/
def reserved : List String :=
  ["true", "false", "null", "~"]

/-- Spellings of further words that have stood for truth values. -/
def formerlyReserved : List String :=
  ["y", "Y", "yes", "Yes", "YES", "n", "N", "no", "No", "NO", "on", "On", "ON", "off", "Off", "OFF"]

/-- Whether a text could be read as something that is no text. -/
def isAmbiguous (cs : List Char) : Bool :=
  match cs with
  | [] => true
  | c :: _ =>
    c.isDigit || c == '-' || c == '.' || c == '+' ||
      reserved.contains (String.ofList (cs.map Char.toLower)) ||
      formerlyReserved.contains (String.ofList cs)

/-- Whether blanks, line ends and signs are such that a text can be written without quotes. -/
def isPlain (cs : List Char) : Bool :=
  cs.all isPrintable && !cs.any isBreak && cs.head? != some ' ' && cs.getLast? != some ' ' &&
    !hasSign cs

/-- Whether a text can be written as a block of lines. -/
def isBlock (cs : List Char) : Bool :=
  cs.all isPrintable && cs.getLast? != some ' ' && !hasPair (· == ' ') isBreak cs

/-- Whether a text can be written between single quotes. -/
def isSingleQuoted (cs : List Char) : Bool :=
  cs.all isPrintable && !hasPair (· == ' ') isBreak cs && !hasPair isBreak (· == ' ') cs

/-- The letters that stand for characters after a backslash. -/
def letters : List (Nat × Char) :=
  [(0, '0'), (7, 'a'), (8, 'b'), (9, 't'), (10, 'n'), (11, 'v'), (12, 'f'), (13, 'r'), (27, 'e'),
    (0x22, '"'), (0x5C, '\\'), (0x85, 'N'), (0xA0, '_'), (0x2028, 'L'), (0x2029, 'P')]

/-- A number in hexadecimal digits, with zeros in front up to a width. -/
def hexadecimal (width n : Nat) : List Char :=
  let digits := (Nat.toDigits 16 n).map Char.toUpper
  List.replicate (width - digits.length) '0' ++ digits

/-- A character between double quotes. -/
def escaped (c : Char) : List Char :=
  if isPrintable c && !isBreak c && c != '"' && c != '\\' then [c]
  else
    match letters.lookup c.toNat with
    | some letter => ['\\', letter]
    | none =>
      if c.toNat ≤ 0xFF then '\\' :: 'x' :: hexadecimal 2 c.toNat
      else if c.toNat ≤ 0xFFFF then '\\' :: 'u' :: hexadecimal 4 c.toNat
      else '\\' :: 'U' :: hexadecimal 8 c.toNat

/-- A text between double quotes. -/
def doubleQuoted (cs : List Char) : List Char :=
  '"' :: cs.flatMap escaped ++ ['"']

/-- The lines of a text that goes on over several, indented by two; empty lines stay empty. `start`
tells whether a line begins here. -/
def indentedLines (start : Bool) : List Char → List Char
  | [] => []
  | c :: cs =>
    if isBreak c then c :: indentedLines true cs
    else (if start then [' ', ' '] else []) ++ c :: indentedLines false cs

/-- A text between single quotes. -/
def singleQuoted (cs : List Char) : List Char :=
  '\'' :: indentedLines false
    (cs.flatMap (fun c => if c == '\'' then ['\'', '\''] else [c]) ++ ['\''])

/-- The signs after that of a block: that its indentation is not that of its first line, and what
becomes of its last line end. -/
def blockSigns (cs : List Char) : List Char :=
  let indentation := match cs with
    | c :: _ => if c == ' ' || isBreak c then ['2'] else []
    | [] => []
  let chomping := match cs.reverse with
    | [] => ['-']
    | [c] => if isBreak c then ['+'] else ['-']
    | c :: d :: _ => if !isBreak c then ['-'] else if isBreak d then ['+'] else []
  indentation ++ chomping

/-- A text as a block of lines. -/
def block (cs : List Char) : List Char :=
  '|' :: blockSigns cs ++ '\n' :: indentedLines true cs ++
    (if cs.getLast?.any isBreak then [] else ['\n'])

/-- A text as the value of a name in a mapping that is not indented, with the line's end. -/
def valueLine (s : String) : String :=
  let cs := s.toList
  String.ofList <|
    if cs.contains '\n' then if isBlock cs then block cs else doubleQuoted cs ++ ['\n']
    else if isPlain cs && !isAmbiguous cs then cs ++ ['\n']
    else if isSingleQuoted cs then singleQuoted cs ++ ['\n']
    else doubleQuoted cs ++ ['\n']

end Growth.Report
