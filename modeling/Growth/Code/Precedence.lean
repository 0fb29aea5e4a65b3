import Growth.Code.Tree

/-! How tightly expressions hold together. -/

namespace Growth.Code

/-- The levels of expressions, from the loosest to the tightest. -/
inductive Precedence where
  | tuple | or | and | not | comparison | sum | product | sign | power | primary
deriving DecidableEq, Repr

namespace Precedence

/-- The place of a level among all. -/
def rank : Precedence → Nat
  | tuple => 0
  | or => 1
  | and => 2
  | not => 3
  | comparison => 4
  | sum => 5
  | product => 6
  | sign => 7
  | power => 8
  | primary => 9

/-- The level of what an operator makes. -/
def ofOperator (op : Operator) : Precedence :=
  if op.isAdditive then sum else if op.isMultiplicative then product else power

/-- The level of what a connective makes. -/
def ofConnective : Connective → Precedence
  | .or => or
  | .and => and

end Precedence

/-- The level of an expression. -/
def Expression.precedence : Expression → Precedence
  | tuple _ => .tuple
  | joined _ connective _ => .ofConnective connective
  | unary .not _ => .not
  | unary .minus _ | unary .plus _ => .sign
  | compare .. => .comparison
  | binary _ op _ => .ofOperator op
  | _ => .primary

end Growth.Code
