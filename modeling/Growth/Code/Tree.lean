import Growth.Binary64.Basic
import Growth.Operator

/-! Syntax trees of target code. -/

namespace Growth.Code

/-- How the operands of a comparison are compared. -/
inductive Comparison where
  | relation (r : Relation)
  | member
  | notMember
  | identical
  | notIdentical
deriving DecidableEq, Repr

/-- The operators with one operand. -/
inductive UnaryOperator where
  | minus
  | plus
  | not
deriving DecidableEq, Repr

/-- An expression. A whole number keeps its spelling, and a string the characters between its
quotes. -/
inductive Expression where
  | integer (lexeme : String)
  | float (value : Binary64)
  | string (content : String)
  | boolean (value : Bool)
  | none
  | name (name : String)
  | list (items : List Expression)
  | tuple (items : List Expression)
  | set (items : List Expression)
  | dict (entries : List (Expression × Expression))
  | item (object index : Expression)
  | field (object : Expression) (name : String)
  | binary (left : Expression) (op : Operator) (right : Expression)
  | unary (op : UnaryOperator) (operand : Expression)
  | joined (left : Expression) (connective : Connective) (right : Expression)
  /-- A chain: each operand is compared with the one before it. -/
  | compare (first : Expression) (others : List (Comparison × Expression))
  | call (callee : Expression) (arguments : List Expression)
deriving Inhabited

/-- What is assigned to. -/
inductive Target where
  | name (name : String)
  | item (object index : Expression)
  | field (object : Expression) (name : String)
deriving Inhabited

/-- A statement. -/
inductive Statement where
  | function (name : String) (parameters : List String) (body : List Statement)
  | assign (target : Target) (value : Expression)
  | update (target : Target) (op : Operator) (value : Expression)
  | whileLoop (condition : Expression) (body : List Statement)
  | forLoop (counter : String) (iterable : Expression) (body : List Statement)
  /-- A chain of conditions is a branch alone in the other body. -/
  | branch (condition : Expression) (body other : List Statement)
  | result (value : Option Expression)
  | breakLoop
  | continueLoop
  | pass
  | expression (value : Expression)
deriving Inhabited

/-- A program. -/
structure Module where
  body : List Statement
deriving Inhabited

namespace Expression

/-- The name that an expression is. -/
def name? : Expression → Option String
  | name n => some n
  | _ => Option.none

/-- The name of what an expression calls. -/
def callee? : Expression → Option String
  | call callee _ => callee.name?
  | _ => Option.none

mutual

/-- Equality of expressions, in which no number is equal that is not equal to itself. -/
def same : Expression → Expression → Bool
  | integer s, integer t => s == t
  | float x, float y => x.same y
  | string s, string t => s == t
  | boolean a, boolean b => a == b
  | none, none => true
  | name m, name n => m == n
  | list xs, list ys => sameAll xs ys
  | tuple xs, tuple ys => sameAll xs ys
  | set xs, set ys => sameAll xs ys
  | dict xs, dict ys => sameEntries xs ys
  | item x i, item y j => same x y && same i j
  | field x m, field y n => same x y && m == n
  | binary a op b, binary c op' d => same a c && op == op' && same b d
  | unary op x, unary op' y => op == op' && same x y
  | joined a k b, joined c k' d => same a c && k == k' && same b d
  | compare x xs, compare y ys => same x y && sameCompared xs ys
  | call x xs, call y ys => same x y && sameAll xs ys
  | _, _ => false
termination_by structural x => x

/-- `same` on lists. -/
def sameAll : List Expression → List Expression → Bool
  | [], [] => true
  | x :: xs, y :: ys => same x y && sameAll xs ys
  | _, _ => false
termination_by structural x => x

/-- `same` on the entries of dictionaries. -/
def sameEntries : List (Expression × Expression) → List (Expression × Expression) → Bool
  | [], [] => true
  | (k, v) :: xs, (k', v') :: ys => same k k' && same v v' && sameEntries xs ys
  | _, _ => false
termination_by structural x => x

/-- `same` on the further operands of comparisons. -/
def sameCompared : List (Comparison × Expression) → List (Comparison × Expression) → Bool
  | [], [] => true
  | (c, x) :: xs, (d, y) :: ys => c == d && same x y && sameCompared xs ys
  | _, _ => false
termination_by structural x => x

end

end Expression

/-- Equality of targets. -/
def Target.same : Target → Target → Bool
  | name m, name n => m == n
  | item x i, item y j => x.same y && i.same j
  | field x m, field y n => x.same y && m == n
  | _, _ => false

namespace Statement

/-- The name that a plain assignment binds. -/
def assigned? : Statement → Option String
  | assign (.name n) _ => some n
  | _ => none

/-- Whether a statement is a loop. -/
def isLoop : Statement → Bool
  | whileLoop .. | forLoop .. => true
  | _ => false

mutual

/-- Equality of statements. -/
def same : Statement → Statement → Bool
  | function f ps b, function g qs c => f == g && ps == qs && sameAll b c
  | assign t x, assign u y => t.same u && x.same y
  | update t op x, update u op' y => t.same u && op == op' && x.same y
  | whileLoop x b, whileLoop y c => x.same y && sameAll b c
  | forLoop m x b, forLoop n y c => m == n && x.same y && sameAll b c
  | branch x b o, branch y c p => x.same y && sameAll b c && sameAll o p
  | result none, result none => true
  | result (some x), result (some y) => x.same y
  | breakLoop, breakLoop => true
  | continueLoop, continueLoop => true
  | pass, pass => true
  | expression x, expression y => x.same y
  | _, _ => false
termination_by structural x => x

/-- `same` on lists. -/
def sameAll : List Statement → List Statement → Bool
  | [], [] => true
  | s :: ss, t :: ts => same s t && sameAll ss ts
  | _, _ => false
termination_by structural x => x

end

end Statement

/-- Equality of programs. -/
def Module.same (m n : Module) : Bool :=
  Statement.sameAll m.body n.body

end Growth.Code
