import Growth.Features

/-! The order of growth of a program. -/

namespace Growth

open Code

/-- The orders of growth, from the least to the greatest. -/
inductive Order where
  | constant | logarithmic | linear | polynomial | exponential
deriving DecidableEq, Repr

namespace Order

/-- The place of an order among all. -/
def rank : Order → Nat
  | constant => 0
  | logarithmic => 1
  | linear => 2
  | polynomial => 3
  | exponential => 4

/-- An order as it is written. -/
def label : Order → String
  | constant => "O(c)"
  | logarithmic => "O(log(n))"
  | linear => "O(n)"
  | polynomial => "O(n^c)"
  | exponential => "O(c^n)"

/-- The greater of two orders. -/
def max (a b : Order) : Order :=
  if a.rank ≤ b.rank then b else a

/-- The order that recursion alone gives, which is none if it need not come to an end. -/
def ofRecursion (m : Module) : Order :=
  let recursive := m.functions.filter fun f => !f.selfCalls.isEmpty
  if recursive.isEmpty then constant
  else if recursive.all Function.converges then polynomial
  else exponential

/-- Whether nothing bounds how often a loop is run through. -/
def isUnbounded (f : Features) (s : Statement) : Bool :=
  match s with
  | .forLoop .. => !s.counts
  | .whileLoop .. => f.collectionLoop == 0 && !s.halves
  | _ => false

/-- The order `o`, raised by what loops the program has. A loop that halves makes a single loop
logarithmic. -/
def raised (o : Order) (f : Features) (loops : List Statement) : Order :=
  let o := if loops.any Statement.halves then o.max logarithmic else o
  let o := if 0 < f.nesting && o ≠ logarithmic then o.max linear else o
  let o := if 1 < f.nesting then o.max polynomial else o
  if loops.any (isUnbounded f) then exponential else o

/-- The order of growth of a program with its features. -/
def classify (m : Module) (f : Features) : Order :=
  if f.abnormalEnd = 1 then exponential
  else
    match ofRecursion m with
    | exponential => exponential
    | o => o.raised f (m.statements.filter Statement.isLoop)

end Order

end Growth
