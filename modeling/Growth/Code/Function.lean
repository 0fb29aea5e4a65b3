import Growth.Code.Node

/-! The functions of a program and their calls to themselves. -/

namespace Growth.Code

/-- The statements of a program, each before those in it. -/
def Module.statements (m : Module) : List Statement :=
  m.walk.filterMap Node.statement?

/-- The expressions of a program, each before those in it. -/
def Module.expressions (m : Module) : List Expression :=
  m.walk.filterMap Node.expression?

/-- The nodes of statements. -/
def nodesIn (body : List Statement) : List Node :=
  body.flatMap fun s => (Node.statement s).walk

/-- The statements among the nodes of statements. -/
def statementsIn (body : List Statement) : List Statement :=
  (nodesIn body).filterMap Node.statement?

/-- The expressions in an expression, each before those in it. -/
def Expression.within (x : Expression) : List Expression :=
  (Node.expression x).walk.filterMap Node.expression?

/-- A function of a program. -/
structure Function where
  name : String
  parameters : List String
  body : List Statement

namespace Function

/-- The function that a statement defines. -/
def ofStatement? : Statement → Option Function
  | .function name parameters body => some ⟨name, parameters, body⟩
  | _ => none

/-- The functions of `fs` with those names that none of `known` has, each name once and at its first
function. -/
def firsts (known : List String) : List Function → List Function
  | [] => []
  | f :: fs =>
    if f.name ∈ known then firsts known fs else f :: firsts (f.name :: known) fs

/-- The arguments of a call of the function. -/
def callArguments? (f : Function) : Expression → Option (List Expression)
  | .call (.name n) arguments => if n = f.name then some arguments else none
  | _ => none

/-- The arguments of the function's calls of itself, wherever in its body they are. -/
def selfCalls (f : Function) : List (List Expression) :=
  ((nodesIn f.body).filterMap Node.expression?).filterMap f.callArguments?

/-- Whether `x` has a division with one of the parameters in what is divided. -/
def dividesParameter (f : Function) (x : Expression) : Bool :=
  x.within.any fun
    | .binary left op _ => op.divides && f.parameters.any left.mentions
    | _ => false

/-- Whether each call of the function by itself divides one of the parameters. -/
def converges (f : Function) : Bool :=
  f.selfCalls.all fun arguments => arguments.any f.dividesParameter

end Function

/-- The functions of a program, each name at its first definition. -/
def Module.functions (m : Module) : List Function :=
  Function.firsts [] (m.statements.filterMap Function.ofStatement?)

end Growth.Code
