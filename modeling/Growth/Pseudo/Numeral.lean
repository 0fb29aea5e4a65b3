/-! The normal form of whole numbers: no plus sign, no leading zeros, and no sign on zero. -/

namespace Growth.Pseudo.Numeral

/-- Whether a text begins with a minus, and the text without its sign. -/
def unsigned : List Char → Bool × List Char
  | '-' :: digits => (true, digits)
  | '+' :: digits => (false, digits)
  | digits => (false, digits)

/-- The normal form of a number's characters. -/
def normal (chars : List Char) : List Char :=
  let (negative, digits) := unsigned chars
  match digits.dropWhile (· == '0') with
  | [] => ['0']
  | significant => if negative then '-' :: significant else significant

/-- The normal form of a number. -/
def normalized (lexeme : String) : String :=
  String.ofList (normal lexeme.toList)

end Growth.Pseudo.Numeral
