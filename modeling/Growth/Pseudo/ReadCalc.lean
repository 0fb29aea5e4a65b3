import Growth.Pseudo.Reading

/-! Reading calculations. Sums are read from products, products from powers and powers from
operands; sums and products group to the left, powers to the right. -/

namespace Growth.Pseudo

mutual

/-- Reads a calculation. -/
def readCalc (ts : List Token) : Reading Calc ts :=
  (readProduct ts).bind fun left rest _ => readSumTail left rest
termination_by 8 * ts.length + 5
decreasing_by all_goals grind [→ List.IsSuffix.length_le]

/-- Reads the terms that follow `left`. -/
def readSumTail (left : Calc) (ts : List Token) : Reading Calc ts :=
  match ts with
  | ⟨.operator op, lexeme, position⟩ :: rest =>
    if op.isAdditive then
      ((readProduct rest).bind fun right rest' _ => readSumTail (.binary left op right) rest').past _
    else .done left (⟨.operator op, lexeme, position⟩ :: rest) (List.suffix_refl _)
  | ts => .done left ts (List.suffix_refl _)
termination_by 8 * ts.length + 4
decreasing_by all_goals grind [→ List.IsSuffix.length_le]

/-- Reads a product. -/
def readProduct (ts : List Token) : Reading Calc ts :=
  (readPower ts).bind fun left rest _ => readProductTail left rest
termination_by 8 * ts.length + 3
decreasing_by all_goals grind [→ List.IsSuffix.length_le]

/-- Reads the factors that follow `left`. -/
def readProductTail (left : Calc) (ts : List Token) : Reading Calc ts :=
  match ts with
  | ⟨.operator op, lexeme, position⟩ :: rest =>
    if op.isMultiplicative then
      ((readPower rest).bind fun right rest' _ => readProductTail (.binary left op right) rest').past _
    else .done left (⟨.operator op, lexeme, position⟩ :: rest) (List.suffix_refl _)
  | ts => .done left ts (List.suffix_refl _)
termination_by 8 * ts.length + 2
decreasing_by all_goals grind [→ List.IsSuffix.length_le]

/-- Reads a power. -/
def readPower (ts : List Token) : Reading Calc ts :=
  (readOperand ts).bind fun base rest _ =>
    match rest with
    | ⟨.operator .power, _, _⟩ :: rest =>
      ((readPower rest).map fun exponent => .binary base .power exponent).past _
    | rest => .done base rest (List.suffix_refl _)
termination_by 8 * ts.length + 1
decreasing_by all_goals grind [→ List.IsSuffix.length_le]

/-- Reads an operand. -/
def readOperand (ts : List Token) : Reading Calc ts :=
  match ts with
  | ⟨.openParen, _, _⟩ :: rest =>
    ((readCalc rest).bind fun inner rest _ =>
      (expect .closeParen rest).map fun _ => .group inner).past _
  | ⟨.number, lexeme, _⟩ :: rest => .done (.number lexeme) rest (List.suffix_cons _ _)
  | ⟨.name, name, _⟩ :: ⟨.openParen, _, _⟩ :: rest =>
    (((readCalcs .closeParen rest).map (.call name)).past _).past _
  | ⟨.name, name, _⟩ :: ⟨.openBracket, _, _⟩ :: rest =>
    (((readCalc rest).bind fun index rest _ =>
      (expect .closeBracket rest).map fun _ => .item name index).past _).past _
  | ⟨.name, name, _⟩ :: rest => .done (.name name) rest (List.suffix_cons _ _)
  | ⟨.openBrace, _, _⟩ :: rest =>
    -- An empty pair of braces is not a set.
    (if (rest.head?.any fun t => t.kind = .closeBrace) then .stuck rest (List.suffix_refl _)
    else (readCalcs .closeBrace rest).map .set).past _
  | ⟨.openBracket, _, _⟩ :: rest => ((readCalcs .closeBracket rest).map .list).past _
  | ts => .stuck ts (List.suffix_refl _)
termination_by 8 * ts.length
decreasing_by all_goals grind [→ List.IsSuffix.length_le]

/-- Reads calculations with commas between them, up to and including the bracket `close`. -/
def readCalcs (close : Kind) (ts : List Token) : Reading (List Calc) ts :=
  match expect close ts with
  | .done _ rest h => .done [] rest h
  | .stuck _ _ => readCalcsTail close ts
termination_by 8 * ts.length + 7
decreasing_by all_goals grind [→ List.IsSuffix.length_le]

/-- Reads one or more calculations up to and including the bracket `close`. -/
def readCalcsTail (close : Kind) (ts : List Token) : Reading (List Calc) ts :=
  (readCalc ts).bind fun first rest _ =>
    match rest with
    | ⟨.comma, _, _⟩ :: rest => ((readCalcsTail close rest).map (first :: ·)).past _
    | rest => (expect close rest).map fun _ => [first]
termination_by 8 * ts.length + 6
decreasing_by all_goals grind [→ List.IsSuffix.length_le]

end

end Growth.Pseudo
