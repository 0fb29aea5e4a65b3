import Growth.Binary64.Basic
import Growth.Shell.Expression

/-! Texts with backslashes, and formats that arguments are written in. -/

namespace Growth.Shell

/-! ### Backslashes -/

/-- The letters that stand for characters after a backslash. -/
def letters : List (Char × Char) :=
  [('a', '\x07'), ('b', '\x08'), ('f', '\x0c'), ('n', '\n'), ('r', '\x0d'), ('t', '\t'), ('v', '\x0b'),
    ('e', '\x1b'), ('\\', '\\'), ('"', '"')]

/-- The octal number at the beginning of `cs`, of `width` digits at most, and what follows it. -/
def octal : (width value : Nat) → List Char → Nat × List Char
  | width + 1, value, c :: cs =>
    match digit? 8 c with
    | some d => octal width (8 * value + d) cs
    | none => (value, c :: cs)
  | _, value, cs => (value, cs)

/-- The character that stands after a backslash in a format, and what follows. What means nothing stays
there after its backslash. -/
def escaped (cs : List Char) : Char × List Char :=
  match cs with
  | [] => ('\\', [])
  | c :: rest =>
    match letters.lookup c with
    | some d => (d, rest)
    | none =>
      if (digit? 8 c).isSome then
        let (n, rest) := octal 3 0 cs
        (Char.ofNat (n % 256), rest)
      else ('\\', cs)

/-- An argument without its backslashes, and whether it asks for an end of all writing. There an octal
number may have a zero more in front. The characters are less than `fuel`. -/
def unescaped : (fuel : Nat) → List Char → List Char × Bool
  | 0, _ => ([], false)
  | _, [] => ([], false)
  | fuel + 1, c :: cs =>
    if c == '\\' then
      match cs with
      | 'c' :: _ => ([], true)
      | _ =>
        let cs := match cs with
          | '0' :: d :: rest => if (digit? 8 d).isSome then d :: rest else cs
          | cs => cs
        let (d, rest) := escaped cs
        let (more, isEnd) := unescaped fuel rest
        (d :: more, isEnd)
    else
      let (more, isEnd) := unescaped fuel cs
      (c :: more, isEnd)

/-! ### Numbers -/

/-- How an argument is written. -/
structure Form where
  isLeft : Bool
  hasPlus : Bool
  hasBlank : Bool
  isMarked : Bool
  hasZeros : Bool
  width : Nat
  precision : Option Nat
deriving Repr

/-- A text filled up to the width. -/
def Form.filled (f : Form) (cs : List Char) : List Char :=
  let gap := List.replicate (f.width - cs.length) ' '
  if f.isLeft then cs ++ gap else gap ++ cs

/-- Digits after a sign or mark, filled up to the width with zeros if so told. -/
def Form.filledNumber (f : Form) (zeros : Bool) (start digits : List Char) : List Char :=
  if zeros && f.hasZeros && !f.isLeft then
    start ++ List.replicate (f.width - start.length - digits.length) '0' ++ digits
  else f.filled (start ++ digits)

/-- The sign of a number. -/
def Form.sign (f : Form) (negative : Bool) : List Char :=
  if negative then ['-'] else if f.hasPlus then ['+'] else if f.hasBlank then [' '] else []

/-- The digits of a whole number, at least as many as the precision says. -/
def Form.digits (f : Form) (base n : Nat) : List Char :=
  let ds := if n = 0 && f.precision = some 0 then [] else Nat.toDigits base n
  List.replicate (f.precision.getD 1 - ds.length) '0' ++ ds

/-- A number with a sign. -/
def Form.signed (f : Form) (n : Int) : List Char :=
  f.filledNumber f.precision.isNone (f.sign (n < 0)) (f.digits 10 n.natAbs)

/-- A number without a sign in a base. -/
def Form.unsigned (f : Form) (c : Char) (n : Nat) : List Char :=
  let base := if c == 'o' then 8 else if c == 'u' then 10 else 16
  let ds := f.digits base n
  let ds := if c == 'o' && f.isMarked && ds.head? != some '0' then '0' :: ds else ds
  let ds := if c == 'X' then ds.map Char.toUpper else ds
  let start := if f.isMarked && n != 0 && (c == 'x' || c == 'X') then ['0', c] else []
  f.filledNumber f.precision.isNone start ds

/-- The digits of `n / d` with some places after the point. -/
def placed (n d places : Nat) : List Char :=
  let ds := Nat.toDigits 10 (Binary64.nearest (n * 10 ^ places) d)
  let ds := List.replicate (places + 1 - ds.length) '0' ++ ds
  let whole := ds.length - places
  ds.take whole ++ (if places = 0 then [] else '.' :: ds.drop whole)

/-- The exponent of ten of `n / d`, which is not zero, when it is rounded to `places + 1` digits. There
are less than `fuel` tens. -/
def exponentOf (n d places : Nat) : Int :=
  let size : Int := (Nat.toDigits 10 n).length - (Nat.toDigits 10 d).length
  let scaled (e : Int) : Nat :=
    Binary64.nearest (n * 10 ^ places * 10 ^ (-e).toNat) (d * 10 ^ e.toNat)
  let fits (e : Int) : Bool := scaled e < 10 ^ (places + 1)
  if fits (size - 1) then size - 1 else if fits size then size else size + 1

/-- An exponent. -/
def exponentText (e : Int) : List Char :=
  let ds := Nat.toDigits 10 e.natAbs
  (if e < 0 then '-' else '+') :: (List.replicate (2 - ds.length) '0' ++ ds)

/-- The digits of `n / d` with some places after the point and an exponent. -/
def scientific (n d places : Nat) : List Char :=
  let e := if n = 0 then 0 else exponentOf n d places
  let ds := placed (n * 10 ^ (-e).toNat) (d * 10 ^ e.toNat) places
  ds ++ 'e' :: exponentText e

/-- The text without zeros at the end of the places after its point. -/
def withoutLastZeros (cs : List Char) : List Char :=
  if cs.contains '.' then
    let kept := (cs.reverse.dropWhile (· == '0')).reverse
    if kept.getLast? == some '.' then kept.dropLast else kept
  else cs

/-- The digits of `n / d` in the shorter of both ways, with some digits that count. -/
def general (n d count : Nat) : List Char :=
  let count := max count 1
  let e := if n = 0 then 0 else exponentOf n d (count - 1)
  if e < -4 || count ≤ e.toNat then
    let cs := scientific n d (count - 1)
    let digits := cs.takeWhile (· != 'e')
    withoutLastZeros digits ++ cs.drop digits.length
  else withoutLastZeros (placed n d (count - 1 + (-e).toNat - e.toNat))

/-- A number with places after its point. -/
def Form.real (f : Form) (c : Char) (x : Binary64) : List Char :=
  let lower := c.toLower
  let ofCase (cs : List Char) : List Char := if c.isUpper then cs.map Char.toUpper else cs
  match x with
  | .nan => f.filled (f.sign false ++ ofCase "nan".toList)
  | .number negative m =>
    if m.val = Binary64.infinite then f.filled (f.sign negative ++ ofCase "inf".toList)
    else
      let n := Binary64.units m.val
      let d := 2 ^ 1074
      let places := f.precision.getD 6
      let ds := if lower == 'f' then placed n d places
        else if lower == 'e' then scientific n d places
        else general n d places
      f.filledNumber true (f.sign negative) (ofCase ds)

/-! ### Formats -/

/-- What stops the writing of a format. -/
inductive FormatStop where
  | endAsked
  | missingCharacter
  | invalid (directive : String)

/-- What has been written, what was wrong with arguments, whether arguments were used, and those left. -/
structure Writing where
  text : List Char
  complaints : List String
  arguments : List String

namespace Writing

/-- The next argument, if there is one. -/
def next (w : Writing) : Option String × Writing :=
  (w.arguments.head?, { w with arguments := w.arguments.tail })

/-- What is wrong with a number, before `rest`, that an argument is. -/
def check (w : Writing) (argument : String) (rest : Option (List Char)) : Writing :=
  match rest with
  | none =>
    if argument.isEmpty then w
    else { w with complaints := w.complaints ++ [s!"{argument}: expected numeric value"] }
  | some [] => w
  | some _ =>
    { w with complaints := w.complaints ++ [s!"{argument}: not completely converted"] }

/-- The next argument as a whole number. After a quote it is that of a character. -/
def nextNumber (w : Writing) (isSigned : Bool) : Int × Writing :=
  match w.next with
  | (none, w) => (0, w)
  | (some s, w) =>
    match s.toList with
    | '"' :: cs | '\'' :: cs => ((cs.head?.map fun c => (c.toNat : Int)).getD 0, w)
    | cs =>
      match readSigned? cs with
      | none => (0, w.check s none)
      | some (n, rest) =>
        let greatest : Int := if isSigned then 2 ^ 63 - 1 else 2 ^ 64 - 1
        let least : Int := if isSigned then -(2 ^ 63) else -(2 ^ 64 - 1)
        if greatest < n || n < least then
          (if isSigned && n < 0 then least else greatest,
            { w with complaints := w.complaints ++ [s!"{s}: Numerical result out of range"] })
        else (n, w.check s (some rest))

/-- The next argument as a number that need not be whole. -/
def nextReal (w : Writing) : Binary64 × Writing :=
  match w.next with
  | (none, w) => (.number false (Binary64.magnitude 0), w)
  | (some s, w) =>
    let cs := s.toList.dropWhile fun c => " \t\n".contains c
    let found := (List.range (cs.length + 1)).reverse.findSome? fun n =>
      (Binary64.read? (cs.take n)).map fun x => (x, cs.drop n)
    match found with
    | some (x, rest) => (x, w.check s (some rest))
    | none => (.number false (Binary64.magnitude 0), w.check s none)

end Writing

/-- The flags at the beginning of a directive, and what follows. -/
def flags (f : Form) : List Char → Form × List Char
  | '#' :: cs => flags { f with isMarked := true } cs
  | '-' :: cs => flags { f with isLeft := true } cs
  | '+' :: cs => flags { f with hasPlus := true } cs
  | ' ' :: cs => flags { f with hasBlank := true } cs
  | '0' :: cs => flags { f with hasZeros := true } cs
  | cs => (f, cs)

/-- The number at the beginning of `cs`, which may be an argument, and what follows. -/
def count (w : Writing) (cs : List Char) : Option Int × List Char × Writing :=
  match cs with
  | '*' :: rest =>
    let (n, w) := w.nextNumber true
    (some n, rest, w)
  | cs =>
    let ds := cs.takeWhile Char.isDigit
    (if ds.isEmpty then none else some (readDigits 10 0 ds).1, cs.drop ds.length, w)

/-- Writes one directive after its percent sign, and gives what follows it. -/
def directive (w : Writing) (cs : List Char) : Except FormatStop (Writing × List Char) × Writing :=
  let (f, rest) := flags ⟨false, false, false, false, false, 0, none⟩ cs
  let (width, rest, w) := count w rest
  let f := match width with
    | some n => { f with width := n.natAbs, isLeft := f.isLeft || n < 0 }
    | none => f
  let (f, rest, w) := match rest with
    | '.' :: rest =>
      let (n, rest, w) := count w rest
      let n := n.getD 0
      ({ f with precision := if n < 0 then none else some n.toNat }, rest, w)
    | rest => (f, rest, w)
  let put (w : Writing) (text : List Char) : Writing := { w with text := w.text ++ text }
  let cut (cs : List Char) : List Char := match f.precision with
    | some n => cs.take n
    | none => cs
  match rest with
  | [] => (.error .missingCharacter, w)
  | c :: rest =>
    if c == 'd' || c == 'i' then
      let (n, w) := w.nextNumber true
      (.ok (put w (f.signed n), rest), w)
    else if "ouxX".contains c then
      let (n, w) := w.nextNumber false
      (.ok (put w (f.unsigned c (n.emod (2 ^ 64)).toNat), rest), w)
    else if "eEfFgG".contains c then
      let (x, w) := w.nextReal
      (.ok (put w (f.real c x), rest), w)
    else if c == 'c' then
      let (s, w) := w.next
      let cs := (s.getD "").toList.take 1
      (.ok (put w (f.filled (if cs.isEmpty then ['\x00'] else cs)), rest), w)
    else if c == 's' then
      let (s, w) := w.next
      (.ok (put w (f.filled (cut (s.getD "").toList)), rest), w)
    else if c == 'b' then
      let (s, w) := w.next
      let (text, isEnd) := unescaped ((s.getD "").length + 1) (s.getD "").toList
      let w := put w (f.filled (cut text))
      if isEnd then (.error .endAsked, w) else (.ok (w, rest), w)
    else
      let taken := cs.take (cs.length - rest.length)
      (.error (.invalid (String.ofList ('%' :: taken))), w)

/-- Writes a format once; it has less than `fuel` characters. -/
def formatOnce : (fuel : Nat) → Writing → List Char → Option FormatStop × Writing
  | 0, w, _ => (none, w)
  | _, w, [] => (none, w)
  | fuel + 1, w, c :: cs =>
    if c == '\\' then
      match cs with
      | 'c' :: _ => (some .endAsked, w)
      | _ =>
        let (d, rest) := escaped cs
        formatOnce fuel { w with text := w.text ++ [d] } rest
    else if c == '%' then
      match cs with
      | '%' :: rest => formatOnce fuel { w with text := w.text ++ ['%'] } rest
      | cs =>
        match directive w cs with
        | (.ok (w, rest), _) => formatOnce fuel w rest
        | (.error stop, w) => (some stop, w)
    else formatOnce fuel { w with text := w.text ++ [c] } cs

/-- Writes a format as often as there are arguments for it, less than `fuel` times. -/
def formatted : (fuel : Nat) → Writing → List Char → Option FormatStop × Writing
  | 0, w, _ => (none, w)
  | fuel + 1, w, format =>
    match formatOnce (format.length + 1) w format with
    | (some stop, w) => (some stop, w)
    | (none, after) =>
      if after.arguments.isEmpty || after.arguments.length = w.arguments.length then (none, after)
      else formatted fuel after format

end Growth.Shell
