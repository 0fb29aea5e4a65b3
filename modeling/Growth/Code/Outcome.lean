import Growth.Code.Scanner
import Growth.Code.Tree

/-! Outcomes of building a tree from tokens: a value and the tokens after it, or an error. The type
bounds the number of tokens left, so a reader that takes a token before it calls itself
terminates. -/

namespace Growth.Code

/-- What is needed where something else is found. -/
inductive Need where
  | openParen
  | closing (b : Bracket)
  | colon
  | inWord
  | identifier
  | block
  | dedent
  | newline
  | expression
deriving DecidableEq, Repr

/-- What is needed, in words. -/
def Need.text : Need → String
  | openParen => "'('"
  | closing b => s!"'{b.closing}'"
  | colon => "':'"
  | inWord => "'in'"
  | identifier => "identifier"
  | block => "indented block"
  | dedent => "dedent"
  | newline => "newline"
  | expression => "expression"

/-- Why a text is no program. -/
inductive BuildError where
  | scan (e : ScanError)
  | unexpected (need : Need) (found : Kind) (p : Position)
  | notAssignable (p : Position)
deriving DecidableEq

/-- The error in words. -/
def BuildError.message : BuildError → String
  | scan e => e.message
  | unexpected need found p => s!"Expected {need.text}, found {found.text} at {p.text}"
  | notAssignable p => s!"Cannot assign to expression at {p.text}"

/-- A value with the tokens left, of which there are at most `n`, or an error. -/
inductive Outcome (α : Type) (n : Nat) where
  | done (value : α) (rest : List Token) (bound : rest.length ≤ n)
  | failed (error : BuildError)

namespace Outcome

variable {α β : Type} {m n : Nat}

/-- The same outcome with a weaker bound. -/
def widen (h : m ≤ n) : Outcome α m → Outcome α n
  | done value rest bound => .done value rest (Nat.le_trans bound h)
  | failed error => .failed error

/-- The outcome after one more token has been taken. -/
def past (o : Outcome α n) : Outcome α (n + 1) :=
  o.widen (Nat.le_succ n)

/-- Goes on with what is left. -/
def bind (o : Outcome α n)
    (next : α → (rest : List Token) → rest.length ≤ n → Outcome β rest.length) : Outcome β n :=
  match o with
  | done value rest bound => (next value rest bound).widen bound
  | failed error => .failed error

/-- Changes the value. -/
def map (f : α → β) : Outcome α n → Outcome β n
  | done value rest bound => .done (f value) rest bound
  | failed error => .failed error

end Outcome

/-- The place of the first token. -/
def positionOf (ts : List Token) : Position :=
  (ts.head?.map fun t => t.place.position).getD .start

/-- The error that the first token is not what is needed. -/
def unexpected {α : Type} {n : Nat} (need : Need) (ts : List Token) : Outcome α n :=
  .failed (.unexpected need ((ts.head?.map Token.kind).getD .endOfFile) (positionOf ts))

/-- Reads a token of the given kind. -/
def expect (kind : Kind) (need : Need) (ts : List Token) : Outcome Unit ts.length :=
  match ts with
  | t :: rest => if t.kind = kind then .done () rest (Nat.le_succ _) else unexpected need (t :: rest)
  | [] => unexpected need []

/-- Reads a bracket that closes. -/
def expectClosing (b : Bracket) (ts : List Token) : Outcome Unit ts.length :=
  expect (.mark (.closing b)) (.closing b) ts

/-- Reads an identifier. -/
def expectIdentifier (ts : List Token) : Outcome String ts.length :=
  match ts with
  | ⟨.identifier name, _, _⟩ :: rest => .done name rest (Nat.le_succ _)
  | ts => unexpected .identifier ts

end Growth.Code
