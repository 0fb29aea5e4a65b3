import Growth.Binary64.Basic

/-! The shortest decimal that reads back as a number, and the text made of it. Of the shortest ones
it is the nearest to the number. -/

namespace Growth.Binary64

/-- The exponent of the first decimal digit of a finite magnitude other than zero. It is read off
the whole part of the magnitude times `10 ^ 400`. -/
def leading (m : Fin (2047 * 2 ^ 52 + 1)) : Int :=
  (digitCount (units m.val * 10 ^ 400 / 2 ^ 1074) : Int) - 401

/-- The whole numbers on either side of `n / d`, the nearer one first, and of two equally near the
greater one. -/
def neighbours (n d : Nat) : Nat × Nat :=
  let low := n / d
  if 2 * (n % d) < d then (low, low + 1) else (low + 1, low)

/-- The multiple of `10 ^ exponent` that reads back as `m`, if one of the two neighbours of `m` among
the multiples does: of two that do the nearer, and of two equally near the greater. -/
def onGrid? (m : Fin (2047 * 2 ^ 52 + 1)) (exponent : Int) : Option Nat :=
  let digits := neighbours (units m.val * 10 ^ (-exponent).toNat) (2 ^ 1074 * 10 ^ exponent.toNat)
  if ofScaled digits.1 exponent = m then some digits.1
  else if ofScaled digits.2 exponent = m then some digits.2
  else none

/-- The same number with fewer digits: `fuel` zeros at most are taken from the end. -/
def withoutZeros : (fuel digits : Nat) → (exponent : Int) → Nat × Int
  | 0, digits, exponent => (digits, exponent)
  | fuel + 1, digits, exponent =>
    if digits % 10 = 0 then withoutZeros fuel (digits / 10) (exponent + 1) else (digits, exponent)

/-- The first decimal of at most seventeen digits that reads back as a finite magnitude. -/
def found? (m : Fin (2047 * 2 ^ 52 + 1)) : Option (Nat × Int) :=
  (List.range 17).findSome? fun n =>
    (onGrid? m (leading m - (n : Nat))).map fun digits => (digits, leading m - (n : Nat))

/-- The shortest decimal that reads back as a finite magnitude. Seventeen digits are enough; the
exact decimal stands behind them only to make the definition complete. -/
def shortest (m : Fin (2047 * 2 ^ 52 + 1)) : Nat × Int :=
  let decimal := (found? m).getD (units m.val * 5 ^ 1074, -1074)
  withoutZeros (digitCount decimal.1) decimal.1 decimal.2

/-- A decimal as text. The point is written in its place from `10 ^ -4` up to, but not including,
`10 ^ 16`; other numbers have one digit before the point and an exponent. -/
def decimalText (digits : Nat) (exponent : Int) : List Char :=
  let ds := Nat.toDigits 10 digits
  let point := ds.length + exponent
  if -4 < point && point ≤ 16 then
    if point ≤ 0 then ['0', '.'] ++ List.replicate (-point).toNat '0' ++ ds
    else
      let places := ds.drop point.toNat
      ds.take point.toNat ++ List.replicate (point.toNat - ds.length) '0' ++
        '.' :: (if places.isEmpty then ['0'] else places)
  else
    let places := ds.drop 1
    ds.take 1 ++ (if places.isEmpty then [] else '.' :: places) ++
      'e' :: (toString (point - 1)).toList

/-- A magnitude as text. -/
def magnitudeText (m : Fin (2047 * 2 ^ 52 + 1)) : List Char :=
  if m.val = infinite then "inf".toList
  else if m.val = 0 then "0.0".toList
  else
    let (digits, exponent) := shortest m
    decimalText digits exponent

/-- A number as text. -/
def text : Binary64 → String
  | nan => "NaN"
  | number negative m => String.ofList (if negative then '-' :: magnitudeText m else magnitudeText m)

end Growth.Binary64
