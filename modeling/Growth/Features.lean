import Growth.Code.Loop

/-! The features of a program that its order of growth is read from. They are small numbers, no
greater than 255. Six can be told from the tree, and two from runs of the program. -/

namespace Growth

open Code

/-- The features of a program. -/
structure Features where
  /-- The most calls of itself that a function has. -/
  selfCalls : Nat
  /-- 1 if a loop depends on a collection. -/
  collectionLoop : Nat
  /-- The most loops inside one another. -/
  nesting : Nat
  /-- 0 without loops, 1 with counting loops only, 2 with others. -/
  loopKind : Nat
  /-- 1 if a run did not come to its normal end. -/
  abnormalEnd : Nat
  /-- 1 if the program has a list or a set. -/
  nonScalar : Nat
  /-- 1 if a run gave a variable the same value twice. -/
  repeatedValue : Nat
  /-- 1 if a loop or a recursive function makes a variable's value from its former one. -/
  reusedValue : Nat
deriving DecidableEq, Repr

namespace Features

/-- The features in their usual order. -/
def toList (f : Features) : List Nat :=
  [f.selfCalls, f.collectionLoop, f.nesting, f.loopKind, f.abnormalEnd, f.nonScalar,
    f.repeatedValue, f.reusedValue]

/-- A feature is no greater than 255. -/
def capped (n : Nat) : Nat :=
  min n 255

/-- The most calls of itself that a function of the program has. -/
def selfCallsOf (m : Module) : Nat :=
  capped ((m.functions.map fun f => f.selfCalls.length).max?.getD 0)

/-! ### Loops -/

/-- Whether an expression is written out as a list or a set. -/
def isCollection : Expression → Bool
  | .list _ | .set _ => true
  | _ => false

/-- The name to which a statement assigns a collection. -/
def collected? : Statement → Option String
  | .assign (.name n) value => if isCollection value then some n else none
  | _ => none

/-- Whether an expression is one of the names. -/
def isAmong (names : List String) (x : Expression) : Bool :=
  x.name?.any names.contains

/-- Whether an operand is one of the names, an item of it, or its length. -/
def regards (names : List String) : Expression → Bool
  | .item object _ => isAmong names object
  | .call (.name "len") [x] => isAmong names x
  | x => isAmong names x

/-- Whether a loop depends on one of the names: it goes through it, or it ends on a comparison with
it. -/
def dependsOn (names : List String) (s : Statement) : Bool :=
  match s with
  | .forLoop _ iterable _ => isAmong names iterable
  | s => (s.exitConditions.flatMap Expression.compared).any (regards names)

/-- Whether one of the statements is a loop that depends on a collection, which is one of `names` or
has been assigned before the loop. -/
def hasCollectionLoop (names : List String) : List Statement → Bool
  | [] => false
  | s :: ss =>
    dependsOn names s || hasCollectionLoop ((collected? s).toList ++ names) ss

/-- Whether a loop of the program depends on a collection. -/
def collectionLoopOf (m : Module) : Nat :=
  (hasCollectionLoop [] m.statements).toNat

mutual

/-- The most loops inside one another in a statement. -/
def depth : Statement → Nat
  | .whileLoop _ body | .forLoop _ _ body => depths body + 1
  | .function _ _ body => depths body
  | .branch _ body other => max (depths body) (depths other)
  | _ => 0

/-- The most loops inside one another in statements. -/
def depths : List Statement → Nat
  | [] => 0
  | s :: ss => max (depth s) (depths ss)

end

/-- The most loops inside one another in the program. -/
def nestingOf (m : Module) : Nat :=
  capped (depths m.body)

/-- What loops the program has. -/
def loopKindOf (m : Module) : Nat :=
  let loops := m.statements.filter Statement.isLoop
  if loops.isEmpty then 0
  else if loops.all fun s => s matches .forLoop .. then 1
  else 2

/-! ### Values -/

/-- Whether the program has a list or a set. -/
def nonScalarOf (m : Module) : Nat :=
  (m.expressions.any isCollection).toNat

/-- The name whose value a statement makes from its former one. -/
def remade? : Statement → Option String
  | .assign (.name n) value => if value.mentions n then some n else none
  | _ => none

/-- The names whose values are made from their former ones somewhere in statements. -/
def remade (body : List Statement) : List String :=
  (statementsIn body).filterMap remade?

/-- Whether a function makes a name's value from its former one and calls itself with it. -/
def passesRemade (f : Function) : Bool :=
  f.selfCalls.any fun arguments => arguments.any (isAmong (remade f.body))

/-- Whether the program makes a value from a former one where it repeats itself. -/
def reusedValueOf (m : Module) : Nat :=
  ((m.statements.filterMap Statement.repeated?).any (fun body => !(remade body).isEmpty) ||
    m.functions.any passesRemade).toNat

/-- The features of a program, with what runs of it have shown. -/
def ofModule (m : Module) (abnormalEnd repeatedValue : Nat) : Features where
  selfCalls := selfCallsOf m
  collectionLoop := collectionLoopOf m
  nesting := nestingOf m
  loopKind := loopKindOf m
  abnormalEnd := abnormalEnd
  nonScalar := nonScalarOf m
  repeatedValue := repeatedValue
  reusedValue := reusedValueOf m

end Features

end Growth
