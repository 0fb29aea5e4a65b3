/-! Decimal numbers with an exponent, and how they are read. -/

-- Powers are those of the core library, whichever other instances are in scope.
attribute [instance (high), default_instance 10001] instPowNat

namespace Growth

/-- The number `digits · 10 ^ exponent`, with a sign. -/
structure Decimal where
  negative : Bool
  digits : Nat
  exponent : Int
deriving DecidableEq, Repr

namespace Decimal

/-- The number that decimal digits stand for. -/
def ofDigits (cs : List Char) : Nat :=
  cs.foldl (fun n c => 10 * n + (c.toNat - '0'.toNat)) 0

/-- A plus or minus in front, whether it is a minus, and what follows. -/
def sign : List Char → Bool × List Char
  | '-' :: cs => (true, cs)
  | '+' :: cs => (false, cs)
  | cs => (false, cs)

/-- The exponent that is all of `cs`: nothing, or the letter and a whole number. -/
def exponent? (cs : List Char) : Option Int :=
  match cs with
  | [] => some 0
  | c :: cs =>
    if c = 'e' || c = 'E' then
      let (negative, digits) := sign cs
      if digits.isEmpty || !digits.all Char.isDigit then none
      else if negative then some (-(ofDigits digits : Int))
      else some (ofDigits digits)
    else none

/-- The places after the point at the beginning of `cs`, and what follows. -/
def places : List Char → List Char × List Char
  | '.' :: cs => cs.span Char.isDigit
  | cs => ([], cs)

/-- The number that is all of `cs`: a sign, digits with a point before, among or after them, and an
exponent. Sign, point and exponent may be left out. -/
def read? (cs : List Char) : Option Decimal :=
  let (negative, cs) := sign cs
  let (whole, cs) := cs.span Char.isDigit
  let (places, cs) := places cs
  if (whole ++ places).isEmpty then none
  else (exponent? cs).map fun e => ⟨negative, ofDigits (whole ++ places), e - places.length⟩

end Decimal

end Growth
