import Growth.Code.Tree

/-! Programs, statements and expressions as the nodes of one tree, and the walk over them that
visits each node before its children. -/

namespace Growth.Code

-- Sums are taken over the zero of the core library, whichever other instances are in scope.
attribute [local instance (high)] Zero.ofOfNat0

namespace Expression

/-- The expressions directly inside an expression, in the order of the text. -/
def children : Expression → List Expression
  | integer _ | float _ | string _ | boolean _ | none | name _ => []
  | list items | tuple items | set items => items
  | dict entries => entries.flatMap fun (key, value) => [key, value]
  | item object index => [object, index]
  | field object _ => [object]
  | binary left _ right | joined left _ right => [left, right]
  | unary _ operand => [operand]
  | compare first others => first :: others.map Prod.snd
  | call callee arguments => callee :: arguments

mutual

/-- The number of expressions in an expression, itself included. -/
def count : Expression → Nat
  | integer _ | float _ | string _ | boolean _ | none | name _ => 1
  | list items | tuple items | set items => 1 + countAll items
  | dict entries => 1 + countEntries entries
  | item object index => 1 + count object + count index
  | field object _ => 1 + count object
  | binary left _ right | joined left _ right => 1 + count left + count right
  | unary _ operand => 1 + count operand
  | compare first others => 1 + count first + countCompared others
  | call callee arguments => 1 + count callee + countAll arguments

/-- `count` over a list. -/
def countAll : List Expression → Nat
  | [] => 0
  | x :: xs => count x + countAll xs

/-- `count` over the entries of a dictionary. -/
def countEntries : List (Expression × Expression) → Nat
  | [] => 0
  | (key, value) :: entries => count key + count value + countEntries entries

/-- `count` over the further operands of a comparison. -/
def countCompared : List (Comparison × Expression) → Nat
  | [] => 0
  | (_, x) :: xs => count x + countCompared xs

end

theorem countAll_eq (xs : List Expression) : countAll xs = (xs.map count).sum := by
  induction xs <;> simp [countAll, *]

theorem countEntries_eq (entries : List (Expression × Expression)) :
    countEntries entries = ((entries.flatMap fun (key, value) => [key, value]).map count).sum := by
  induction entries with
  | nil => rfl
  | cons e _ ih => simp [countEntries, ih, Nat.add_assoc]

theorem countCompared_eq (xs : List (Comparison × Expression)) :
    countCompared xs = ((xs.map Prod.snd).map count).sum := by
  induction xs with
  | nil => rfl
  | cons x _ ih => simp [countCompared, ih]

/-- An expression counts one more than what is in it. -/
theorem count_eq (x : Expression) : x.count = 1 + (x.children.map count).sum := by
  cases x <;> simp [count, children, countAll_eq, countEntries_eq, countCompared_eq, Nat.add_assoc]

end Expression

/-- The expressions in a target, in the order of the text. -/
def Target.children : Target → List Expression
  | name _ => []
  | item object index => [object, index]
  | field object _ => [object]

/-- A node of the tree. -/
inductive Node where
  | module (m : Module)
  | statement (s : Statement)
  | expression (x : Expression)

namespace Statement

/-- The nodes directly inside a statement, in the order of the text. -/
def children : Statement → List Node
  | function _ _ body => body.map .statement
  | assign target value | update target _ value =>
    (target.children ++ [value]).map .expression
  | whileLoop condition body => .expression condition :: body.map .statement
  | forLoop _ iterable body => .expression iterable :: body.map .statement
  | branch condition body other =>
    .expression condition :: (body ++ other).map .statement
  | result (some value) | expression value => [.expression value]
  | result none | breakLoop | continueLoop | pass => []

mutual

/-- The number of nodes in a statement, itself included. -/
def count : Statement → Nat
  | function _ _ body => 1 + countAll body
  | assign target value | update target _ value =>
    1 + ((target.children ++ [value]).map Expression.count).sum
  | whileLoop condition body => 1 + condition.count + countAll body
  | forLoop _ iterable body => 1 + iterable.count + countAll body
  | branch condition body other => 1 + condition.count + countAll body + countAll other
  | result (some value) | expression value => 1 + value.count
  | result none | breakLoop | continueLoop | pass => 1

/-- `count` over a list. -/
def countAll : List Statement → Nat
  | [] => 0
  | s :: ss => count s + countAll ss

end

theorem countAll_eq (ss : List Statement) : countAll ss = (ss.map count).sum := by
  induction ss <;> simp [countAll, *]

end Statement

namespace Node

/-- The nodes directly inside a node, in the order of the text. -/
def children : Node → List Node
  | module m => m.body.map .statement
  | statement s => s.children
  | expression x => x.children.map .expression

/-- The number of nodes in a node, itself included. -/
def count : Node → Nat
  | module m => 1 + Statement.countAll m.body
  | statement s => s.count
  | expression x => x.count

theorem map_count_statement (ss : List Statement) :
    (ss.map Node.statement).map count = ss.map Statement.count := by
  simp [Function.comp_def, count]

theorem map_count_expression (xs : List Expression) :
    (xs.map Node.expression).map count = xs.map Expression.count := by
  simp [Function.comp_def, count]

/-- A node counts one more than what is in it. -/
theorem count_eq (n : Node) : n.count = 1 + (n.children.map count).sum := by
  match n with
  | module m => simp only [count, children, map_count_statement, Statement.countAll_eq]
  | expression x => simp only [count, children, map_count_expression, x.count_eq]
  | statement s =>
    rcases s with _ | _ | _ | _ | _ | _ | (_ | _) | _ | _ | _ | _ <;>
      simp [count, children, Statement.children, Statement.count, Statement.countAll_eq,
        map_count_statement, map_count_expression, Nat.add_assoc, -List.map_map]

/-- The nodes visited when `stack` is what is left to visit. -/
def walkFrom : (stack : List Node) → List Node
  | [] => []
  | n :: stack => n :: walkFrom (n.children ++ stack)
termination_by stack => (stack.map count).sum
decreasing_by
  have := n.count_eq
  simp only [List.map_append, List.sum_append, List.map_cons, List.sum_cons]
  omega

/-- The nodes of the tree below a node, each before its children. -/
def walk (n : Node) : List Node :=
  walkFrom [n]

/-- The statement that a node is. -/
def statement? : Node → Option Statement
  | statement s => some s
  | _ => none

/-- The expression that a node is. -/
def expression? : Node → Option Expression
  | expression x => some x
  | _ => none

end Node

/-- The nodes of a program. -/
def Module.walk (m : Module) : List Node :=
  (Node.module m).walk

/-- Whether a name occurs anywhere in an expression. -/
def Expression.mentions (x : Expression) (name : String) : Bool :=
  (Node.expression x).walk.any fun n => (n.expression?.bind Expression.name?) == some name

end Growth.Code
