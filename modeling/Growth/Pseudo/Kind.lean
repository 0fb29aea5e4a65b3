import Growth.Operator

/-! The words of pseudocode: keywords, comparison and arithmetic signs, brackets, numbers and
names. -/

namespace Growth.Pseudo

/-- What sort of word a token is. -/
inductive Kind where
  | procedureKw | returnKw | ifKw | thenKw | elseKw | endIf | forKw | doKw | endFor | endProc
  | repeatKw | untilKw | andKw | orKw | notKw | inKw | toKw | byKw
  | relation (r : Relation)
  | operator (o : Operator)
  | openParen | closeParen | openBracket | closeBracket | openBrace | closeBrace
  | arrow | comma | number | name
deriving DecidableEq, Repr

namespace Kind

/-- The keywords, in lower case. -/
def keywords : List (String × Kind) :=
  [("procedure", procedureKw), ("return", returnKw), ("if", ifKw), ("then", thenKw),
    ("else", elseKw), ("endif", endIf), ("for", forKw), ("do", doKw), ("endfor", endFor),
    ("endproc", endProc), ("repeat", repeatKw), ("until", untilKw), ("and", andKw), ("or", orKw),
    ("not", notKw), ("in", inKw), ("to", toKw), ("by", byKw)]

/-- The keyword that `word` is. ASCII letters count the same in either case. -/
def keyword? (word : String) : Option Kind :=
  keywords.lookup (String.ofList (word.toList.map Char.toLower))

/-- After these a sign is an operator and not part of a number. -/
def endsOperand : Kind → Bool
  | number | name | closeParen | closeBracket | closeBrace => true
  | _ => false

/-- The keywords that end a block of statements. -/
def endsBlock : Kind → Bool
  | endIf | elseKw | endFor | endProc | untilKw => true
  | _ => false

end Kind

end Growth.Pseudo
