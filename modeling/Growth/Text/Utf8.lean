/-! Texts as bytes in UTF-8. Bytes that are no text are read as far as they are one. -/

namespace Growth.Text.Utf8

/-- The bytes of a text. -/
def encoded (cs : List Char) : List UInt8 :=
  (String.ofList cs).toUTF8.toList

/-- Where reading stands: at the beginning of a character, or inside one whose number begins with
`value`, with `left` bytes to come and the next of them from `low` to `high`. -/
inductive State where
  | ready
  | inside (value left : Nat) (low high : Nat)
deriving DecidableEq

/-- What the first byte of a character comes to: the character, nothing if it begins none, and where
reading stands after it. -/
def first (b : Nat) : List (Option Char) × State :=
  if b < 0x80 then ([some (Char.ofNat b)], .ready)
  else if 0xC2 ≤ b && b ≤ 0xDF then ([], .inside (b - 0xC0) 1 0x80 0xBF)
  else if b = 0xE0 then ([], .inside 0 2 0xA0 0xBF)
  else if b = 0xED then ([], .inside 0xD 2 0x80 0x9F)
  else if 0xE1 ≤ b && b ≤ 0xEF then ([], .inside (b - 0xE0) 2 0x80 0xBF)
  else if b = 0xF0 then ([], .inside 0 3 0x90 0xBF)
  else if b = 0xF4 then ([], .inside 4 3 0x80 0x8F)
  else if 0xF1 ≤ b && b ≤ 0xF3 then ([], .inside (b - 0xF0) 3 0x80 0xBF)
  else ([none], .ready)

/-- What one more byte comes to. -/
def next (s : State) (b : Nat) : List (Option Char) × State :=
  match s with
  | .ready => first b
  | .inside value left low high =>
    if low ≤ b && b ≤ high then
      let value := 64 * value + (b - 0x80)
      if left ≤ 1 then ([some (Char.ofNat value)], .ready)
      else ([], .inside value (left - 1) 0x80 0xBF)
    else
      let (found, s) := first b
      (none :: found, s)

/-- The characters of bytes, with nothing for those that are no part of a character. -/
def read (s : State) : List UInt8 → List (Option Char)
  | [] => if s = .ready then [] else [none]
  | b :: bs =>
    let (found, s) := next s b.toNat
    found ++ read s bs

/-- The text that bytes are. -/
def decoded? (bytes : List UInt8) : Option (List Char) :=
  (read .ready bytes).mapM id

/-- The text of bytes, with a replacement for what is none. -/
def lossy (bytes : List UInt8) : List Char :=
  (read .ready bytes).map fun c => c.getD (Char.ofNat 0xFFFD)

end Growth.Text.Utf8
