import Growth.Binary64.Shortest
import Growth.Operator
import Growth.Place
import Growth.Text.Quoted

/-! The tokens of target code. -/

namespace Growth.Code

/-- The reserved words. -/
inductive Keyword where
  | trueKw | falseKw | noneKw | ifKw | elifKw | elseKw | whileKw | forKw | inKw | defKw | returnKw
  | passKw | breakKw | continueKw | andKw | orKw | notKw | isKw
deriving DecidableEq, Repr

/-- The reserved words as they are written. -/
def Keyword.table : List (String × Keyword) :=
  [("True", trueKw), ("False", falseKw), ("None", noneKw), ("if", ifKw), ("elif", elifKw),
    ("else", elseKw), ("while", whileKw), ("for", forKw), ("in", inKw), ("def", defKw),
    ("return", returnKw), ("pass", passKw), ("break", breakKw), ("continue", continueKw),
    ("and", andKw), ("or", orKw), ("not", notKw), ("is", isKw)]

/-- The shapes of brackets. -/
inductive Bracket where
  | round | square | curly
deriving DecidableEq, Repr

/-- The character that closes a bracket. -/
def Bracket.closing : Bracket → Char
  | round => ')'
  | square => ']'
  | curly => '}'

/-- The signs. -/
inductive Mark where
  | equal
  | augmented (op : Operator)
  | operator (op : Operator)
  | relation (r : Relation)
  | colon | semicolon | comma | dot
  | opening (b : Bracket)
  | closing (b : Bracket)
deriving DecidableEq, Repr

/-- The signs as they are written, each before its own beginnings. -/
def Mark.table : List (List Char × Mark) :=
  [(['*', '*', '='], augmented .power), (['*', '*'], operator .power),
    (['*', '='], augmented .times), (['*'], operator .times),
    (['/', '/', '='], augmented .quotient), (['/', '/'], operator .quotient),
    (['/', '='], augmented .divide), (['/'], operator .divide),
    (['+', '='], augmented .plus), (['+'], operator .plus),
    (['-', '='], augmented .minus), (['-'], operator .minus),
    (['%', '='], augmented .remainder), (['%'], operator .remainder),
    (['=', '='], relation .eq), (['='], equal), (['!', '='], relation .ne),
    (['<', '='], relation .le), (['<'], relation .lt),
    (['>', '='], relation .ge), (['>'], relation .gt),
    ([':'], colon), ([';'], semicolon), ([','], comma), (['.'], dot),
    (['('], opening .round), ([')'], closing .round), (['['], opening .square),
    ([']'], closing .square), (['{'], opening .curly), (['}'], closing .curly)]

/-- What a token is. A whole number keeps its spelling, and a string the characters between its
quotes. -/
inductive Kind where
  | identifier (name : String)
  | integer (lexeme : String)
  | float (value : Binary64)
  | string (content : String)
  | keyword (k : Keyword)
  | mark (m : Mark)
  | newline
  | indent
  | dedent
  | endOfFile
deriving DecidableEq

/-- A token, the bytes it takes up, and where it begins. -/
structure Token where
  kind : Kind
  place : Place
  stop : Nat
deriving DecidableEq

/-- A word as it is named in messages. -/
def Keyword.name : Keyword → String
  | trueKw => "True"
  | falseKw => "False"
  | noneKw => "None"
  | ifKw => "If"
  | elifKw => "Elif"
  | elseKw => "Else"
  | whileKw => "While"
  | forKw => "For"
  | inKw => "In"
  | defKw => "Def"
  | returnKw => "Return"
  | passKw => "Pass"
  | breakKw => "Break"
  | continueKw => "Continue"
  | andKw => "And"
  | orKw => "Or"
  | notKw => "Not"
  | isKw => "Is"

/-- An operator as it is named in messages. -/
def operatorName : Operator → String
  | .plus => "Plus"
  | .minus => "Minus"
  | .times => "Star"
  | .divide => "Slash"
  | .quotient => "DoubleSlash"
  | .remainder => "Percent"
  | .power => "DoubleStar"

/-- A sign as it is named in messages. -/
def Mark.name : Mark → String
  | equal => "Equal"
  | augmented op => operatorName op ++ "Equal"
  | operator op => operatorName op
  | relation .eq => "EqEq"
  | relation .ne => "NotEq"
  | relation .gt => "Greater"
  | relation .ge => "GreaterEqual"
  | relation .lt => "Less"
  | relation .le => "LessEqual"
  | colon => "Colon"
  | semicolon => "Semicolon"
  | comma => "Comma"
  | dot => "Dot"
  | opening .round => "LParen"
  | opening .square => "LBracket"
  | opening .curly => "LBrace"
  | closing .round => "RParen"
  | closing .square => "RBracket"
  | closing .curly => "RBrace"

/-- The sort of a token, as it is named in messages. -/
def Kind.sort : Kind → String
  | identifier _ => "Identifier"
  | integer _ => "Integer"
  | float _ => "Float"
  | string _ => "String"
  | keyword k => k.name
  | mark m => m.name
  | newline => "Newline"
  | indent => "Indent"
  | dedent => "Dedent"
  | endOfFile => "EOF"

/-- What a token carries besides its sort, as it is shown in messages. -/
def Kind.content? : Kind → Option String
  | identifier name => some (Text.quoted name)
  | integer lexeme => some (Text.quoted lexeme)
  | float value => some value.text
  | string content => some (Text.quoted content)
  | _ => none

/-- A token's kind in messages. -/
def Kind.text (k : Kind) : String :=
  match k.content? with
  | some content => s!"{k.sort}({content})"
  | none => k.sort

end Growth.Code
