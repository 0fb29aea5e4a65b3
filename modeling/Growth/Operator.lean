/-! The signs and words that join operands, which pseudocode and target code share. -/

namespace Growth

/-- The signs that compare two numbers. -/
inductive Relation where
  | eq | ne | gt | ge | lt | le
deriving DecidableEq, Repr

/-- The sign in target code. -/
def Relation.text : Relation → String
  | eq => "=="
  | ne => "!="
  | gt => ">"
  | ge => ">="
  | lt => "<"
  | le => "<="

/-- The operators of arithmetic. -/
inductive Operator where
  | plus | minus | times | divide | quotient | remainder | power
deriving DecidableEq, Repr

namespace Operator

/-- The sign in target code. -/
def text : Operator → String
  | plus => "+"
  | minus => "-"
  | times => "*"
  | divide => "/"
  | quotient => "//"
  | remainder => "%"
  | power => "**"

/-- The operators between the terms of a sum. -/
def isAdditive : Operator → Bool
  | plus | minus => true
  | _ => false

/-- The operators between the factors of a product. -/
def isMultiplicative : Operator → Bool
  | times | divide | quotient | remainder => true
  | _ => false

/-- The operators that divide. -/
def divides : Operator → Bool
  | divide | quotient => true
  | _ => false

end Operator

/-- The words that join conditions. -/
inductive Connective where
  | and
  | or
deriving DecidableEq, Repr

/-- The word in target code. -/
def Connective.text : Connective → String
  | and => "and"
  | or => "or"

end Growth
