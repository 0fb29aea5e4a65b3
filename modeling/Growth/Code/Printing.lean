import Growth.Binary64.Shortest
import Growth.Code.Precedence

/-! Trees as text. Parentheses stand only where the text would be read as another tree without
them. -/

namespace Growth.Code

/-- The sign or words of a comparison. -/
def Comparison.text : Comparison → String
  | relation r => r.text
  | member => "in"
  | notMember => "not in"
  | identical => "is"
  | notIdentical => "is not"

/-- The sign or word before an operand, with the blank that belongs to it. -/
def UnaryOperator.text : UnaryOperator → String
  | minus => "-"
  | plus => "+"
  | not => "not "

/-- The least level of an operand. -/
def UnaryOperator.level : UnaryOperator → Precedence
  | minus | plus => .sign
  | not => .not

/-- The content of a string between quotes. They are double only where the content has single
quotes and no double ones. -/
def quotedContent (content : String) : String :=
  if content.contains '\'' && !content.contains '"' then "\"" ++ content ++ "\""
  else "'" ++ content ++ "'"

namespace Expression

/-- The text `s` of `x`, in parentheses if `x` is looser than `level`. -/
def atLeast (level : Precedence) (x : Expression) (s : String) : String :=
  if x.precedence.rank < level.rank then "(" ++ s ++ ")" else s

/-- The text `s` of `x`, in parentheses unless `x` is tighter than `level`. -/
def above (level : Precedence) (x : Expression) (s : String) : String :=
  if x.precedence.rank ≤ level.rank then "(" ++ s ++ ")" else s

mutual

/-- An expression as text. -/
def text : Expression → String
  | integer lexeme => lexeme
  | float value => value.text
  | string content => quotedContent content
  | boolean value => if value then "True" else "False"
  | none => "None"
  | name n => n
  | list items => "[" ++ ", ".intercalate (itemTexts items) ++ "]"
  | tuple items =>
    "(" ++ ", ".intercalate (itemTexts items) ++ (if items.length = 1 then "," else "") ++ ")"
  | set items => "\x7b" ++ ", ".intercalate (itemTexts items) ++ "\x7d"
  | dict entries => "\x7b" ++ ", ".intercalate (entryTexts entries) ++ "\x7d"
  | item object index => atLeast .primary object object.text ++ "[" ++ index.text ++ "]"
  | field object n => atLeast .primary object object.text ++ "." ++ n
  | binary left op right =>
    match op with
    | .power =>
      atLeast .primary left left.text ++ " ** " ++ atLeast .sign right right.text
    | _ =>
      let level := Precedence.ofOperator op
      atLeast level left left.text ++ " " ++ op.text ++ " " ++ above level right right.text
  | unary op operand => op.text ++ atLeast op.level operand operand.text
  | joined left connective right =>
    let level := Precedence.ofConnective connective
    atLeast level left left.text ++ " " ++ connective.text ++ " " ++ above level right right.text
  | compare first others => above .comparison first first.text ++ comparedText others
  | call callee arguments =>
    atLeast .primary callee callee.text ++ "(" ++ ", ".intercalate (itemTexts arguments) ++ ")"

/-- The texts of expressions between commas. -/
def itemTexts : List Expression → List String
  | [] => []
  | x :: xs => atLeast .or x x.text :: itemTexts xs

/-- The texts of the entries of a dictionary. -/
def entryTexts : List (Expression × Expression) → List String
  | [] => []
  | (key, value) :: entries =>
    (atLeast .or key key.text ++ ": " ++ atLeast .or value value.text) :: entryTexts entries

/-- The text of the further operands of a comparison. -/
def comparedText : List (Comparison × Expression) → String
  | [] => ""
  | (op, x) :: others => " " ++ op.text ++ " " ++ above .comparison x x.text ++ comparedText others

end

end Expression

/-- A target as text. -/
def Target.text : Target → String
  | name n => n
  | item object index => object.atLeast .primary object.text ++ "[" ++ index.text ++ "]"
  | field object n => object.atLeast .primary object.text ++ "." ++ n

/-- A line inside `depth` blocks. -/
def printedLine (depth : Nat) (text : String) : String :=
  String.join (List.replicate depth "    ") ++ text ++ "\n"

/-- Whether statements are one branch, which continues the branch that they are the other body
of. -/
def isChain : List Statement → Bool
  | [.branch ..] => true
  | _ => false

namespace Statement

mutual

/-- A statement as text, inside `depth` blocks; a branch begins with `word`. -/
def text (word : String) (depth : Nat) : Statement → String
  | function name parameters body =>
    printedLine depth ("def " ++ name ++ "(" ++ ", ".intercalate parameters ++ "):") ++
      bodyText (depth + 1) body
  | assign target value => printedLine depth (target.text ++ " = " ++ value.text)
  | update target op value =>
    printedLine depth (target.text ++ " " ++ op.text ++ "= " ++ value.text)
  | whileLoop condition body =>
    printedLine depth ("while " ++ condition.text ++ ":") ++ bodyText (depth + 1) body
  | forLoop counter iterable body =>
    printedLine depth ("for " ++ counter ++ " in " ++ iterable.text ++ ":") ++
      bodyText (depth + 1) body
  | branch condition body other =>
    printedLine depth (word ++ " " ++ condition.text ++ ":") ++ bodyText (depth + 1) body ++
      if isChain other then texts "elif" depth other
      else if other.isEmpty then ""
      else printedLine depth "else:" ++ bodyText (depth + 1) other
  | result none => printedLine depth "return"
  | result (some value) => printedLine depth ("return " ++ value.text)
  | breakLoop => printedLine depth "break"
  | continueLoop => printedLine depth "continue"
  | pass => printedLine depth "pass"
  | expression value => printedLine depth value.text

/-- Statements as text, one after the other. -/
def texts (word : String) (depth : Nat) : List Statement → String
  | [] => ""
  | s :: ss => text word depth s ++ texts word depth ss

/-- The statements of a body as text. A body without statements does nothing. -/
def bodyText (depth : Nat) : List Statement → String
  | [] => printedLine depth "pass"
  | s :: ss => text "if" depth s ++ texts "if" depth ss

end

end Statement

/-- A program as text. -/
def Module.text (m : Module) : String :=
  Statement.bodyText 0 m.body

end Growth.Code
