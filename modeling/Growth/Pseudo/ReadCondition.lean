import Growth.Pseudo.ReadCalc

/-! Reading conditions. A parenthesis at the beginning may group conditions or calculations. It is
read as a condition first; where that fails, or where an operator or a comparison follows the
closing parenthesis, it belongs to a calculation. -/

namespace Growth.Pseudo

/-- The comparison at the beginning of `ts` and what follows it. -/
def comparator? (ts : List Token) : Option (Comparator × { rest : List Token // rest <:+ ts }) :=
  match ts with
  | ⟨.relation r, _, _⟩ :: rest => some (.relation r, ⟨rest, List.suffix_cons _ _⟩)
  | ⟨.inKw, _, _⟩ :: rest => some (.member, ⟨rest, List.suffix_cons _ _⟩)
  | ⟨.notKw, _, _⟩ :: ⟨.inKw, _, _⟩ :: rest =>
    some (.notMember, ⟨rest, (List.suffix_cons _ _).trans (List.suffix_cons _ _)⟩)
  | _ => none

/-- Whether `ts` goes on with a calculation or a comparison that has begun. -/
def continuesOperand (ts : List Token) : Bool :=
  match ts with
  | ⟨.operator _, _, _⟩ :: _ => true
  | ts => (comparator? ts).isSome

/-- Reads one calculation, or two and what compares them. -/
def readComparison (ts : List Token) : Reading Condition ts :=
  (readCalc ts).bind fun left rest _ =>
    match comparator? rest with
    | some (op, ⟨rest, h⟩) => ((readCalc rest).map fun right => .compare left op right).widen h
    | none => .done (.value left) rest (List.suffix_refl _)

mutual

/-- Reads a condition. -/
def readCondition (ts : List Token) : Reading Condition ts :=
  (readUnit ts).bind fun left rest _ => readConditionTail left rest
termination_by 3 * ts.length + 2
decreasing_by all_goals grind [→ List.IsSuffix.length_le]

/-- Reads the conditions joined to `left`. -/
def readConditionTail (left : Condition) (ts : List Token) : Reading Condition ts :=
  match ts with
  | ⟨.andKw, _, _⟩ :: rest =>
    ((readUnit rest).bind fun right rest' _ =>
      readConditionTail (.joined left .and right) rest').past _
  | ⟨.orKw, _, _⟩ :: rest =>
    ((readUnit rest).bind fun right rest' _ =>
      readConditionTail (.joined left .or right) rest').past _
  | ts => .done left ts (List.suffix_refl _)
termination_by 3 * ts.length + 1
decreasing_by all_goals grind [→ List.IsSuffix.length_le]

/-- Reads a condition without what is joined to it. -/
def readUnit (ts : List Token) : Reading Condition ts :=
  match ts with
  | ⟨.notKw, _, _⟩ :: rest => ((readUnit rest).map .negation).past _
  | ⟨.openParen, lexeme, position⟩ :: rest =>
    let group : Reading Condition rest := (readCondition rest).bind fun inner rest _ =>
      (expect .closeParen rest).map fun _ => .group inner
    match group.past ⟨.openParen, lexeme, position⟩ with
    | .done inner rest' h =>
      if continuesOperand rest' then readComparison _ else .done inner rest' h
    | .stuck _ _ => readComparison _
  | ts => readComparison ts
termination_by 3 * ts.length
decreasing_by all_goals grind [→ List.IsSuffix.length_le]

end

end Growth.Pseudo
