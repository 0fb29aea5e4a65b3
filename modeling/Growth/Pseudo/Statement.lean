import Growth.Pseudo.Kind

/-! Pseudocode as trees: calculations, conditions and statements. A tree keeps the parentheses that
were written, so the words of the text can be read off it in order. -/

namespace Growth.Pseudo

/-- A calculation. -/
inductive Calc where
  | number (lexeme : String)
  | name (name : String)
  | call (name : String) (arguments : List Calc)
  | item (name : String) (index : Calc)
  | group (inner : Calc)
  | set (items : List Calc)
  | list (items : List Calc)
  | binary (left : Calc) (op : Operator) (right : Calc)
deriving Repr, Inhabited

/-- How two calculations are compared. -/
inductive Comparator where
  | relation (r : Relation)
  | member
  | notMember
deriving DecidableEq, Repr

/-- A condition. Joined conditions group to the left, whatever joins them. -/
inductive Condition where
  | value (of : Calc)
  | compare (left : Calc) (op : Comparator) (right : Calc)
  | negation (inner : Condition)
  | group (inner : Condition)
  | joined (left : Condition) (connective : Connective) (right : Condition)
deriving Repr, Inhabited

/-- The index of an assigned item. -/
inductive Index where
  | number (lexeme : String)
  | name (name : String)
deriving DecidableEq, Repr

/-- What is assigned to. -/
inductive Target where
  | name (name : String)
  | item (name : String) (index : Index)
deriving DecidableEq, Repr

/-- What a counting variable ranges over. -/
inductive Source where
  | values (of : Calc)
  | interval (first last : Calc)
  | steps (first last step : Calc)
deriving Repr, Inhabited

/-- A statement. -/
inductive Statement where
  | assign (target : Target) (value : Calc)
  | branch (condition : Condition) (body : List Statement)
  | choice (condition : Condition) (body other : List Statement)
  | each (counter : String) (source : Source) (body : List Statement)
  | repetition (body : List Statement) (condition : Condition)
  | procedure (name : String) (parameters : List String) (body : List Statement)
  | result (value : Option Calc)
deriving Repr, Inhabited

end Growth.Pseudo
