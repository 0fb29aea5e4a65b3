/-! Whole numbers read from texts, up to a bound. -/

namespace Growth.Text

/-- Why a text is no whole number. -/
inductive NumberError where
  | empty
  | badDigit
  | tooLarge
deriving DecidableEq, Repr

/-- The reason in words. -/
def NumberError.message : NumberError → String
  | empty => "cannot parse integer from empty string"
  | badDigit => "invalid digit found in string"
  | tooLarge => "number too large to fit in target type"

/-- The value of a digit in a base up to 36. -/
def digit? (base : Nat) (c : Char) : Option Nat :=
  let value? :=
    if c.isDigit then some (c.toNat - '0'.toNat)
    else if c.isLower then some (c.toNat - 'a'.toNat + 10)
    else if c.isUpper then some (c.toNat - 'A'.toNat + 10)
    else none
  value?.filter (· < base)

/-- The number whose first digits are `value` and whose further digits are all of `cs`. The first
fault counts. -/
def readDigits (base bound value : Nat) : List Char → Except NumberError Nat
  | [] => .ok value
  | c :: cs =>
    match digit? base c with
    | none => .error .badDigit
    | some d =>
      if bound < base * value + d then .error .tooLarge
      else readDigits base bound (base * value + d) cs

/-- The number that is all of `cs`: digits, with a plus in front or without. -/
def readWhole (base bound : Nat) (cs : List Char) : Except NumberError Nat :=
  match cs with
  | [] => .error .empty
  | ['+'] => .error .badDigit
  | '+' :: digits => readDigits base bound 0 digits
  | digits => readDigits base bound 0 digits

end Growth.Text
