import Growth.Document.Sign

/-! Tags, which tell what kind of thing something is. A tag is written in full, or by a handle that
stands for its beginning and the rest. A directive says what a handle stands for. -/

namespace Growth.Document

/-- A tag as it is written: its handle and what follows. Without a handle, what follows is all. -/
structure Tag where
  handle : List Char
  suffix : List Char
deriving DecidableEq, Repr

/-- The characters that stand for themselves in a tag; signs of lists only if `signs`. -/
def isTagChar (signs : Bool) (c : Char) : Bool :=
  isNameChar c || ";/?:@&=+$.!~*'()".contains c || signs && ",[]".contains c

/-- How many further octets belong to the character whose first octet is `n`. -/
def furtherOctets? (n : Nat) : Option Nat :=
  if n < 0x80 then some 0
  else if 0xC0 ≤ n && n < 0xE0 then some 1
  else if 0xE0 ≤ n && n < 0xF0 then some 2
  else if 0xF0 ≤ n && n < 0xF8 then some 3
  else none

/-- The part of a tag at the beginning of `cs`, and what follows it. After a percent sign the octets of a
character may be given as numbers, of which `left` are still to come; each stands as the character with
its number. -/
def tagPart? (signs : Bool) (left : Nat) : List Char → Option (List Char × List Char)
  | [] => if left = 0 then some ([], []) else none
  | '%' :: a :: b :: cs =>
    (hexDigit? a).bind fun high =>
    (hexDigit? b).bind fun low =>
    let n := 16 * high + low
    let left := if left = 0 then furtherOctets? n
      else if 0x80 ≤ n && n < 0xC0 then some (left - 1)
      else none
    left.bind fun left =>
      (tagPart? signs left cs).map fun (more, rest) => (Char.ofNat n :: more, rest)
  | '%' :: _ => none
  | c :: cs =>
    if left ≠ 0 then none
    else if isTagChar signs c then
      (tagPart? signs 0 cs).map fun (more, rest) => (c :: more, rest)
    else some ([], c :: cs)

/-- The same where the part may not be empty. Octet zero ends what counts of it. -/
def tagText? (signs : Bool) (cs : List Char) : Option (List Char × List Char) :=
  (tagPart? signs 0 cs).bind fun (text, rest) =>
    if text.isEmpty then none else some (text.takeWhile (·.toNat ≠ 0), rest)

/-- The tag after its exclamation mark, and what follows it. An exclamation mark alone is a tag too. -/
def tag? : List Char → Option (Tag × List Char)
  | '<' :: cs =>
    (tagText? true cs).bind fun (suffix, rest) =>
      match rest with
      | '>' :: rest => some (⟨[], suffix⟩, rest)
      | _ => none
  | cs =>
    let name := cs.takeWhile isNameChar
    match cs.drop name.length with
    | '!' :: cs =>
      (tagText? false cs).map fun (suffix, rest) => (⟨'!' :: name ++ ['!'], suffix⟩, rest)
    | _ =>
      (tagPart? false 0 cs).map fun (text, rest) =>
        match text.takeWhile (·.toNat ≠ 0) with
        | [] => (⟨[], ['!']⟩, rest)
        | suffix => (⟨['!'], suffix⟩, rest)

/-! ### Directives -/

/-- What a directive says: the version of the notation, or what a handle stands for. -/
inductive Directive where
  | version (major minor : Nat)
  | handle (name expansion : List Char)
deriving DecidableEq, Repr

/-- The whole number in at most nine digits at the beginning of `cs`, and what follows it. -/
def versionPart? (cs : List Char) : Option (Nat × List Char) :=
  let digits := cs.takeWhile Char.isDigit
  if digits.isEmpty || 9 < digits.length then none
  else some (digits.foldl (fun n d => 10 * n + (d.toNat - '0'.toNat)) 0, cs.drop digits.length)

/-- The version after its directive's name. -/
def version? (cs : List Char) : Option (Directive × List Char) :=
  (versionPart? (cs.dropWhile isBlank)).bind fun (major, rest) =>
    match rest with
    | '.' :: rest => (versionPart? rest).map fun (minor, rest) => (.version major minor, rest)
    | _ => none

/-- The handle after its directive's name, and what it stands for. -/
def handle? (cs : List Char) : Option (Directive × List Char) :=
  match cs.dropWhile isBlank with
  | '!' :: cs =>
    let name := cs.takeWhile isNameChar
    let found := match cs.drop name.length with
      | '!' :: rest => some ('!' :: name ++ ['!'], rest)
      | rest => if name.isEmpty then some (['!'], rest) else none
    found.bind fun (name, rest) =>
      if rest.head?.any isBlank then
        (tagText? true (rest.dropWhile isBlank)).bind fun (expansion, rest) =>
          if startsGap rest then some (.handle name expansion, rest) else none
      else none
  | _ => none

/-- The directive after its percent sign, and what follows its line. -/
def directive? (cs : List Char) : Option (Directive × List Char) :=
  let name := cs.takeWhile isNameChar
  let rest := cs.drop name.length
  let found :=
    if !startsGap rest then none
    else if name == "YAML".toList then version? rest
    else if name == "TAG".toList then handle? rest
    else none
  found.bind fun (d, rest) =>
    let rest := rest.dropWhile isBlank
    let rest := if rest.head? == some '#' then rest.dropWhile (!isBreak ·) else rest
    match rest with
    | [] => some (d, [])
    | c :: rest => if isBreak c then some (d, rest) else none

end Growth.Document
