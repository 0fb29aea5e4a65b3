import Growth.Code.Function

/-! Loops: when they end and what they compare. -/

namespace Growth.Code

namespace Statement

/-- Whether a statement is or contains a way out of a loop. -/
def leaves (s : Statement) : Bool :=
  (statementsIn [s]).any fun
    | breakLoop => true
    | _ => false

/-- The condition of a branch with a way out in it. -/
def leavingCondition? (s : Statement) : Option Expression :=
  match s with
  | branch condition _ _ => if s.leaves then some condition else none
  | _ => none

/-- The condition of the first branch in a loop's body that has a way out in it. -/
def breakCondition? : Statement → Option Expression
  | whileLoop _ body => (statementsIn body).findSome? leavingCondition?
  | _ => none

/-- The conditions under which a loop ends: its own, unless it is always true, and that of its first
branch with a way out. -/
def exitConditions (s : Statement) : List Expression :=
  match s with
  | whileLoop (.boolean true) _ => s.breakCondition?.toList
  | whileLoop condition _ => condition :: s.breakCondition?.toList
  | _ => []

/-- The statements that a loop repeats. -/
def repeated? : Statement → Option (List Statement)
  | whileLoop _ body | forLoop _ _ body => some body
  | _ => none

end Statement

/-- The operands of all comparisons in an expression. -/
def Expression.compared (x : Expression) : List Expression :=
  x.within.flatMap fun
    | compare first others => first :: others.map Prod.snd
    | _ => []

namespace Statement

/-- The name that a statement divides: `x = x / …` or `x /= …`. -/
def divided? : Statement → Option String
  | assign (.name n) (.binary left op _) =>
    if op.divides && left.name? == some n then some n else none
  | update (.name n) op _ => if op.divides then some n else none
  | _ => none

/-- Whether a loop ends on a comparison of a name that its body divides. -/
def halves (s : Statement) : Bool :=
  match s with
  | whileLoop _ body =>
    let names := (s.exitConditions.flatMap Expression.compared).filterMap Expression.name?
    ((statementsIn body).filterMap divided?).any names.contains
  | _ => false

/-- Whether a loop counts through a range. -/
def counts : Statement → Bool
  | forLoop _ iterable _ => iterable.callee? == some "range"
  | _ => false

end Statement

end Growth.Code
