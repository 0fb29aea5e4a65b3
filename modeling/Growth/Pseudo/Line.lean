import Growth.Pseudo.Numeral
import Growth.Pseudo.Statement

/-! The lines of target code that stand for pseudocode. Where a block begins and ends is said by
lines of their own; no line of code is indented yet. -/

namespace Growth.Pseudo

/-- A line of code, or the beginning or the end of a block. -/
inductive Line where
  | opening
  | closing
  | code (text : String)
deriving DecidableEq, Repr

/-- The sign or words in target code. -/
def Comparator.text : Comparator → String
  | relation r => r.text
  | member => "in"
  | notMember => "not in"

mutual

/-- A calculation in target code. -/
def Calc.text : Calc → String
  | number lexeme => Numeral.normalized lexeme
  | name n => n
  | call n arguments => n ++ "(" ++ ", ".intercalate (Calc.texts arguments) ++ ")"
  | item n index => s!"{n}[{index.text}]"
  | group inner => s!"({inner.text})"
  | set items => "\x7b" ++ ",".intercalate (Calc.texts items) ++ "\x7d"
  | list items => "[" ++ ",".intercalate (Calc.texts items) ++ "]"
  | binary left op right => s!"{left.text} {op.text} {right.text}"

/-- Calculations in target code. -/
def Calc.texts : List Calc → List String
  | [] => []
  | c :: cs => c.text :: Calc.texts cs

end

/-- A condition in target code. -/
def Condition.text : Condition → String
  | value of => of.text
  | compare left op right => s!"{left.text} {op.text} {right.text}"
  | negation inner => s!" not({inner.text})"
  | group inner => s!"({inner.text})"
  | joined left connective right => s!"{left.text} {connective.text} {right.text}"

/-- An index in target code. -/
def Index.text : Index → String
  | number lexeme => Numeral.normalized lexeme
  | name n => n

/-- A target in target code. -/
def Target.text : Target → String
  | name n => n
  | item n index => s!"{n}[{index.text}]"

/-- What a counter ranges over, in target code. -/
def Source.text : Source → String
  | values of => of.text
  | interval first last => s!"range({first.text},{last.text})"
  | steps first last step => s!"range({first.text},{last.text},{step.text})"

/-- Lines as a block. A block without lines does nothing. -/
def Line.block (lines : List Line) : List Line :=
  opening :: (if lines.isEmpty then [code "pass"] else lines) ++ [closing]

mutual

/-- The lines of a statement. -/
def Statement.lines : Statement → List Line
  | assign target value => [.code s!"{target.text} = {value.text}"]
  | branch condition body => .code s!"if {condition.text}:" :: Line.block (linesOf body)
  | choice condition body other =>
    .code s!"if {condition.text}:" :: Line.block (linesOf body) ++
      .code "else:" :: Line.block (linesOf other)
  | each counter source body =>
    .code s!"for {counter} in {source.text}:" :: Line.block (linesOf body)
  | repetition body condition =>
    let leave := .code s!"if {condition.text}:" :: Line.block [.code "break"]
    let lines := linesOf body
    .code "while True:" :: Line.block ((if lines.isEmpty then [.code "pass"] else lines) ++ leave)
  | procedure name parameters body =>
    let list := ",".intercalate parameters
    .code s!"def {name} ({list}):" :: Line.block (linesOf body)
  | result none => [.code "return"]
  | result (some value) => [.code s!"return {value.text}"]

/-- The lines of statements, one after the other. -/
def Statement.linesOf : List Statement → List Line
  | [] => []
  | s :: ss => s.lines ++ Statement.linesOf ss

end

/-- A line as text, with its end. -/
def Line.text : Line → String
  | opening => "INDENT\n"
  | closing => "UNINDENT\n"
  | code text => text ++ "\n"

end Growth.Pseudo
