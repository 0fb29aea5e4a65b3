import Growth.Pseudo.Reading

/-! The words of pseudocode trees, in order. Only numbers and names keep their spelling. A tree also
says how its words group: a grouped tree is one that the grammar's levels allow, and a full one has
no empty block. -/

namespace Growth

/-- The kind of the word that joins conditions. -/
def Connective.kind : Connective → Pseudo.Kind
  | and => .andKw
  | or => .orKw

/-- The level of an operator: sums, products, powers. -/
def Operator.level (op : Operator) : Nat :=
  if op.isAdditive then 0 else if op.isMultiplicative then 1 else 2

theorem Operator.level_of_isAdditive {op : Operator} (h : op.isAdditive = true) : op.level = 0 := by
  simp [Operator.level, h]

theorem Operator.level_of_isMultiplicative {op : Operator} (h : op.isMultiplicative = true) :
    op.level = 1 := by
  cases op <;> simp_all [Operator.level, Operator.isAdditive, Operator.isMultiplicative]

theorem Operator.ne_power_of_isAdditive {op : Operator} (h : op.isAdditive = true) :
    op ≠ .power := by
  rintro rfl
  exact nomatch h

theorem Operator.ne_power_of_isMultiplicative {op : Operator} (h : op.isMultiplicative = true) :
    op ≠ .power := by
  rintro rfl
  exact nomatch h

theorem Operator.level_le (op : Operator) : op.level ≤ 2 := by
  cases op <;> decide

theorem Operator.level_eq_two_iff {op : Operator} : op.level = 2 ↔ op = .power := by
  cases op <;> decide

namespace Pseudo

/-- A kind of word, and the spelling of a number or a name. -/
abbrev Word := Kind × String

/-- A word whose spelling does not count. -/
def Kind.word (k : Kind) : Word := (k, "")

/-- The word that a token is. -/
def Token.word (t : Token) : Word :=
  (t.kind, if t.kind = .number ∨ t.kind = .name then t.lexeme else "")

@[simp] theorem Kind.word_fst (k : Kind) : k.word.1 = k := rfl

@[simp] theorem Token.word_fst (t : Token) : t.word.1 = t.kind := rfl

/-- The words of a comparison. -/
def Comparator.words : Comparator → List Word
  | relation r => [Kind.word (.relation r)]
  | member => [Kind.inKw.word]
  | notMember => [Kind.notKw.word, Kind.inKw.word]

mutual

/-- The words of a calculation. -/
def Calc.words : Calc → List Word
  | number lexeme => [(.number, lexeme)]
  | name n => [(.name, n)]
  | call n arguments =>
    (.name, n) :: Kind.openParen.word :: Calc.listed arguments ++ [Kind.closeParen.word]
  | item n index => (.name, n) :: Kind.openBracket.word :: index.words ++ [Kind.closeBracket.word]
  | group inner => Kind.openParen.word :: inner.words ++ [Kind.closeParen.word]
  | set items => Kind.openBrace.word :: Calc.listed items ++ [Kind.closeBrace.word]
  | list items => Kind.openBracket.word :: Calc.listed items ++ [Kind.closeBracket.word]
  | binary left op right => left.words ++ Kind.word (.operator op) :: right.words

/-- The words of calculations with commas between them. -/
def Calc.listed : List Calc → List Word
  | [] => []
  | c :: cs => c.words ++ if cs.isEmpty then [] else Kind.comma.word :: Calc.listed cs

end

/-- The words of a condition. -/
def Condition.words : Condition → List Word
  | value c => c.words
  | compare left op right => left.words ++ op.words ++ right.words
  | negation inner => Kind.notKw.word :: inner.words
  | group inner => Kind.openParen.word :: inner.words ++ [Kind.closeParen.word]
  | joined left connective right => left.words ++ connective.kind.word :: right.words

/-- The word of an index. -/
def Index.word : Index → Word
  | number lexeme => (.number, lexeme)
  | name n => (.name, n)

/-- The words of a target. -/
def Target.words : Target → List Word
  | name n => [(.name, n)]
  | item n index => [(.name, n), Kind.openBracket.word, index.word, Kind.closeBracket.word]

/-- The words of what a counter ranges over. -/
def Source.words : Source → List Word
  | values c => c.words
  | interval first last => first.words ++ Kind.toKw.word :: last.words
  | steps first last step =>
    first.words ++ Kind.toKw.word :: last.words ++ Kind.byKw.word :: step.words

/-- The words of parameters with commas between them. -/
def parameterWords : List String → List Word
  | [] => []
  | p :: ps => (.name, p) :: if ps.isEmpty then [] else Kind.comma.word :: parameterWords ps

mutual

/-- The words of a statement. -/
def Statement.words : Statement → List Word
  | assign target value => target.words ++ Kind.arrow.word :: value.words
  | branch condition body =>
    Kind.ifKw.word :: condition.words ++ Kind.thenKw.word :: Statement.wordsOf body ++
      [Kind.endIf.word]
  | choice condition body other =>
    Kind.ifKw.word :: condition.words ++ Kind.thenKw.word :: Statement.wordsOf body ++
      Kind.elseKw.word :: Statement.wordsOf other ++ [Kind.endIf.word]
  | each counter source body =>
    Kind.forKw.word :: (.name, counter) :: Kind.inKw.word :: source.words ++
      Kind.doKw.word :: Statement.wordsOf body ++ [Kind.endFor.word]
  | repetition body condition =>
    Kind.repeatKw.word :: Statement.wordsOf body ++ Kind.untilKw.word :: condition.words
  | procedure name parameters body =>
    Kind.procedureKw.word :: (.name, name) :: Kind.openParen.word :: parameterWords parameters ++
      Kind.closeParen.word :: Statement.wordsOf body ++ [Kind.endProc.word]
  | result none => [Kind.returnKw.word]
  | result (some value) => Kind.returnKw.word :: value.words

/-- The words of statements, one after the other. -/
def Statement.wordsOf : List Statement → List Word
  | [] => []
  | s :: ss => s.words ++ Statement.wordsOf ss

end

/-- The level of a calculation: that of its loosest operator, or the tightest. -/
def Calc.level : Calc → Nat
  | binary _ op _ => op.level
  | _ => 3

mutual

/-- Sums and products group to the left, powers to the right, and sets are not empty. -/
def Calc.Grouped : Calc → Prop
  | number _ | name _ => True
  | call _ arguments => Calc.AllGrouped arguments
  | item _ index => index.Grouped
  | group inner => inner.Grouped
  | set items => items ≠ [] ∧ Calc.AllGrouped items
  | list items => Calc.AllGrouped items
  | binary left op right =>
    left.Grouped ∧ right.Grouped ∧
      if op = .power then 2 < left.level ∧ 2 ≤ right.level
      else op.level ≤ left.level ∧ op.level < right.level

/-- All of the calculations are grouped. -/
def Calc.AllGrouped : List Calc → Prop
  | [] => True
  | c :: cs => c.Grouped ∧ Calc.AllGrouped cs

end

/-- A condition without others joined to it. -/
def Condition.isUnit : Condition → Bool
  | joined .. => false
  | _ => true

/-- Joined conditions group to the left, and a negation covers one condition only. -/
def Condition.Grouped : Condition → Prop
  | value c => c.Grouped
  | compare left _ right => left.Grouped ∧ right.Grouped
  | negation inner => inner.Grouped ∧ inner.isUnit
  | group inner => inner.Grouped
  | joined left _ right => left.Grouped ∧ right.Grouped ∧ right.isUnit

/-- The calculations of a source are grouped. -/
def Source.Grouped : Source → Prop
  | values c => c.Grouped
  | interval first last => first.Grouped ∧ last.Grouped
  | steps first last step => first.Grouped ∧ last.Grouped ∧ step.Grouped

mutual

/-- The calculations and conditions of a statement are grouped. -/
def Statement.Grouped : Statement → Prop
  | assign _ value => value.Grouped
  | branch condition body => condition.Grouped ∧ Statement.AllGrouped body
  | choice condition body other =>
    condition.Grouped ∧ Statement.AllGrouped body ∧ Statement.AllGrouped other
  | each _ source body => source.Grouped ∧ Statement.AllGrouped body
  | repetition body condition => Statement.AllGrouped body ∧ condition.Grouped
  | procedure _ _ body => Statement.AllGrouped body
  | result none => True
  | result (some value) => value.Grouped

/-- All of the statements are grouped. -/
def Statement.AllGrouped : List Statement → Prop
  | [] => True
  | s :: ss => s.Grouped ∧ Statement.AllGrouped ss

end

mutual

/-- No block of a statement is empty. -/
def Statement.Full : Statement → Prop
  | assign .. | result _ => True
  | branch _ body | each _ _ body | repetition body _ | procedure _ _ body =>
    body ≠ [] ∧ Statement.AllFull body
  | choice _ body other =>
    (body ≠ [] ∧ Statement.AllFull body) ∧ other ≠ [] ∧ Statement.AllFull other

/-- No block of the statements is empty. -/
def Statement.AllFull : List Statement → Prop
  | [] => True
  | s :: ss => s.Full ∧ Statement.AllFull ss

end

end Pseudo

end Growth
