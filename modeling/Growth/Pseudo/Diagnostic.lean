import Growth.Position

/-! What is reported about a pseudocode text. -/

namespace Growth.Pseudo

/-- A problem with the text. -/
inductive Problem where
  /-- A character that begins no word. -/
  | illegal (c : Char)
  /-- A word that no rule of the grammar allows where it stands. -/
  | unexpected (lexeme : String)
  /-- The text ends where a word is needed. -/
  | unexpectedEnd
deriving DecidableEq, Repr

namespace Problem

/-- Whether the problem lies with the words themselves and not with their order. -/
def isLexical : Problem → Bool
  | illegal _ => true
  | _ => false

/-- The problem in words. -/
def message : Problem → String
  | illegal c => s!"Illegal character '{c}'"
  | unexpected lexeme => s!"syntax error near '{lexeme}'"
  | unexpectedEnd => "syntax error near end of input"

end Problem

/-- A problem and its place. -/
structure Diagnostic where
  problem : Problem
  position : Position
deriving DecidableEq, Repr

/-- The problem in words, with its place. -/
def Diagnostic.text (d : Diagnostic) : String :=
  s!"{d.problem.message} at {d.position.text}"

end Growth.Pseudo
