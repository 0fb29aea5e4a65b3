/-! Patterns for texts. Quoted characters of a pattern stand for themselves. -/

namespace Growth.Shell

/-- A character, and whether it is quoted. -/
abbrev Marked := Char × Bool

/-- A part of a pattern. -/
inductive Pattern where
  | one (c : Char)
  | any
  | many
  /-- One of some characters, or none of them if `negated`. -/
  | among (negated : Bool) (accepts : Char → Bool)

namespace Pattern

/-- Classes of characters by name. -/
def classes : List (String × (Char → Bool)) :=
  [("alpha", Char.isAlpha), ("digit", Char.isDigit), ("alnum", Char.isAlphanum),
    ("upper", Char.isUpper), ("lower", Char.isLower), ("space", fun c => " \t\n\x0b\x0c\x0d".contains c),
    ("blank", fun c => c == ' ' || c == '\t'), ("punct", fun c =>
      0x20 < c.toNat && c.toNat < 0x7F && !c.isAlphanum),
    ("print", fun c => 0x20 ≤ c.toNat && c.toNat < 0x7F),
    ("graph", fun c => 0x20 < c.toNat && c.toNat < 0x7F),
    ("cntrl", fun c => c.toNat < 0x20 || c.toNat == 0x7F),
    ("xdigit", fun c => c.isDigit || 'a' ≤ c && c ≤ 'f' || 'A' ≤ c && c ≤ 'F')]

/-- The class whose name is at the beginning of `cs`, after its bracket and colon, and what follows. -/
def class? (cs : List Marked) : Option ((Char → Bool) × List Marked) :=
  let name := cs.takeWhile fun m => m.1.isAlpha
  match classes.lookup (String.ofList (name.map Prod.fst)), cs.drop name.length with
  | some accepts, (':', _) :: (']', _) :: rest => some (accepts, rest)
  | _, _ => none

/-- The characters between square brackets, and what follows; nothing if they are not closed. The first
of them may be a closing bracket. -/
def members (first : Bool) (accepts : Char → Bool) :
    (fuel : Nat) → List Marked → Option ((Char → Bool) × List Marked)
  | 0, _ => none
  | _, [] => none
  | fuel + 1, (c, quoted) :: cs =>
    if c == ']' && !quoted && !first then some (accepts, cs)
    else
      match c, quoted, cs with
      | '[', false, (':', _) :: rest =>
        match class? rest with
        | some (more, rest) => members false (fun d => accepts d || more d) fuel rest
        | none => members false (fun d => accepts d || d == c) fuel cs
      | _, _, ('-', false) :: (d, q) :: rest =>
        if d == ']' && !q then members false (fun e => accepts e || e == c) fuel cs
        else members false (fun e => accepts e || c ≤ e && e ≤ d) fuel rest
      | _, _, _ => members false (fun d => accepts d || d == c) fuel cs

/-- The pattern that characters are; there are less than `fuel`. -/
def ofMarked : (fuel : Nat) → List Marked → List Pattern
  | 0, _ => []
  | _, [] => []
  | fuel + 1, (c, quoted) :: cs =>
    if quoted then one c :: ofMarked fuel cs
    else if c == '*' then many :: ofMarked fuel cs
    else if c == '?' then any :: ofMarked fuel cs
    else if c == '\\' then
      match cs with
      | (d, _) :: rest => one d :: ofMarked fuel rest
      | [] => [one c]
    else if c == '[' then
      let (negated, inside) := match cs with
        | ('!', false) :: rest | ('^', false) :: rest => (true, rest)
        | cs => (false, cs)
      match members true (fun _ => false) (cs.length + 1) inside with
      | some (accepts, rest) => among negated accepts :: ofMarked fuel rest
      | none => one c :: ofMarked fuel cs
    else one c :: ofMarked fuel cs

/-- Whether a text matches. -/
def accepts : List Pattern → List Char → Bool
  | [], cs => cs.isEmpty
  | one c :: ps, d :: cs => c == d && accepts ps cs
  | any :: ps, _ :: cs => accepts ps cs
  | among negated p :: ps, d :: cs => p d != negated && accepts ps cs
  | many :: ps, cs => (List.range (cs.length + 1)).any fun n => accepts ps (cs.drop n)
  | _, [] => false

end Pattern

/-- The pattern that characters are. -/
def patternOf (cs : List Marked) : List Pattern :=
  Pattern.ofMarked (cs.length + 1) cs

/-- Whether characters are a pattern that is more than a text. -/
def isPattern (cs : List Marked) : Bool :=
  (patternOf cs).any fun
    | .one _ => false
    | _ => true

/-- The text without the shortest or longest part at its beginning or end that matches. -/
def trimmed (atEnd longest : Bool) (pattern : List Pattern) (text : List Char) : List Char :=
  let cuts := List.range (text.length + 1)
  let cuts := if longest == atEnd then cuts else cuts.reverse
  let matching := cuts.find? fun n =>
    Pattern.accepts pattern (if atEnd then text.drop n else text.take n)
  match matching with
  | some n => if atEnd then text.take n else text.drop n
  | none => text

end Growth.Shell
