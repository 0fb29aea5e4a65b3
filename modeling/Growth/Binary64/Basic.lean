import Growth.Decimal

/-! Binary64 numbers as exact data. A magnitude is a code that counts the magnitudes in order, from
zero through the finite ones to infinity; the finite ones are whole multiples of `2 ^ -1074`. A
decimal is rounded to the nearest magnitude, and of two nearest to the one with the even code. -/

namespace Growth

/-- A binary64 number, all NaNs being one. -/
inductive Binary64 where
  | nan
  | number (negative : Bool) (magnitude : Fin (2047 * 2 ^ 52 + 1))
deriving DecidableEq

namespace Binary64

/-- The code of infinity. -/
def infinite : Nat := 2047 * 2 ^ 52

/-- The magnitude with a code, or infinity past the last one. -/
def magnitude (code : Nat) : Fin (2047 * 2 ^ 52 + 1) :=
  ⟨min code infinite, by unfold infinite; omega⟩

/-- The finite magnitude with a code, in units of `2 ^ -1074`. -/
def units (code : Nat) : Nat :=
  let shift := code / 2 ^ 52 - 1
  (code - shift * 2 ^ 52) * 2 ^ shift

/-- The whole number nearest to `n / d`, and of two nearest the even one. -/
def nearest (n d : Nat) : Nat :=
  let q := n / d
  let r := n % d
  if 2 * r < d then q else if d < 2 * r then q + 1 else q + q % 2

/-- The magnitude nearest to `n / d` units. -/
def ofUnits (n d : Nat) : Fin (2047 * 2 ^ 52 + 1) :=
  let shift := (n / d).log2 - 52
  magnitude (shift * 2 ^ 52 + nearest n (d * 2 ^ shift))

/-- The number of digits of `n` in decimal notation. -/
def digitCount (n : Nat) : Nat :=
  (Nat.toDigits 10 n).length

/-- The magnitude nearest to `digits · 10 ^ exponent`. Numbers from `10 ^ 310` on are past the last
finite magnitude, and those below `10 ^ -330` are nearer to zero than to the first. -/
def ofScaled (digits : Nat) (exponent : Int) : Fin (2047 * 2 ^ 52 + 1) :=
  let size := digitCount digits + exponent
  if digits = 0 || size < -330 then magnitude 0
  else if 311 < size then magnitude infinite
  else ofUnits (digits * 10 ^ exponent.toNat * 2 ^ 1074) (10 ^ (-exponent).toNat)

/-- The number nearest to a decimal. -/
def ofDecimal (d : Decimal) : Binary64 :=
  number d.negative (ofScaled d.digits d.exponent)

/-- The number that is all of `cs`: a decimal, or the word for infinity or for no number, in letters
of either case and with a sign or without. -/
def read? (cs : List Char) : Option Binary64 :=
  let (negative, word) := Decimal.sign cs
  let word := String.ofList (word.map Char.toLower)
  if word = "inf" || word = "infinity" then some (number negative (magnitude infinite))
  else if word = "nan" then some nan
  else (Decimal.read? cs).map ofDecimal

/-- Equality of numbers: no NaN is equal to anything, and the zeros are equal to each other. -/
def same : Binary64 → Binary64 → Bool
  | number s m, number s' m' => m = m' && (s = s' || m.val = 0)
  | _, _ => false

end Binary64

end Growth
