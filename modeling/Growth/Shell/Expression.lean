/-! Expressions of whole numbers in 64 bits, with variables. -/

namespace Growth.Shell

/-- The number in 64 bits. -/
def wrapped (n : Int) : Int :=
  n.bmod (2 ^ 64)

/-- Signs between two operands, apart from those that leave one of them out. -/
inductive Operation where
  | times | divided | rest
  | plus | minus
  | shiftLeft | shiftRight
  | less | atMost | greater | atLeast
  | equal | unequal
  | andBits | xorBits | orBits
deriving DecidableEq, Repr

namespace Operation

/-- The signs. -/
def table : List (String × Operation) :=
  [("*", times), ("/", divided), ("%", rest), ("+", plus), ("-", minus), ("<<", shiftLeft),
    (">>", shiftRight), ("<", less), ("<=", atMost), (">", greater), (">=", atLeast), ("==", equal),
    ("!=", unequal), ("&", andBits), ("^", xorBits), ("|", orBits)]

/-- How loosely the operation binds. -/
def looseness : Operation → Nat
  | times | divided | rest => 0
  | plus | minus => 1
  | shiftLeft | shiftRight => 2
  | less | atMost | greater | atLeast => 3
  | equal | unequal => 4
  | andBits => 5
  | xorBits => 6
  | orBits => 7

/-- Applies a function on bits. -/
def onBits (f : Nat → Nat → Nat) (a b : Int) : Int :=
  wrapped (f (a.emod (2 ^ 64)).toNat (b.emod (2 ^ 64)).toNat)

/-- The number for a truth value. -/
def truth (b : Bool) : Int :=
  if b then 1 else 0

/-- The result, if the divisor is not zero. -/
def combine? (op : Operation) (a b : Int) : Option Int :=
  match op with
  | times => some (wrapped (a * b))
  | divided => if b = 0 then none else some (wrapped (a.tdiv b))
  | rest => if b = 0 then none else some (a.tmod b)
  | plus => some (wrapped (a + b))
  | minus => some (wrapped (a - b))
  | shiftLeft => some (wrapped (a * 2 ^ (b.emod 64).toNat))
  | shiftRight => some (a.fdiv (2 ^ (b.emod 64).toNat))
  | less => some (truth (a < b))
  | atMost => some (truth (a ≤ b))
  | greater => some (truth (b < a))
  | atLeast => some (truth (b ≤ a))
  | equal => some (truth (a == b))
  | unequal => some (truth (a != b))
  | andBits => some (onBits Nat.land a b)
  | xorBits => some (onBits Nat.xor a b)
  | orBits => some (onBits Nat.lor a b)

end Operation

/-- An expression. -/
inductive Expression where
  | number (n : Int)
  | variableNamed (name : String)
  | negative (e : Expression)
  | not (e : Expression)
  | flipped (e : Expression)
  | binary (op : Operation) (a b : Expression)
  | both (a b : Expression)
  | either (a b : Expression)
  | choice (test a b : Expression)
  /-- Gives a variable a value, with an operation from the one it has or from nothing. -/
  | assign (name : String) (op : Option Operation) (e : Expression)
deriving Repr

/-! ### Numbers -/

/-- The value of a digit in some base. -/
def digit? (base : Nat) (c : Char) : Option Nat :=
  let n :=
    if c.isDigit then c.toNat - '0'.toNat
    else if c.isLower then c.toNat - 'a'.toNat + 10
    else if c.isUpper then c.toNat - 'A'.toNat + 10
    else base
  if n < base then some n else none

/-- The digits at the beginning of `cs` as a number after `value`, and what follows. -/
def readDigits (base value : Nat) : List Char → Nat × List Char
  | [] => (value, [])
  | c :: cs =>
    match digit? base c with
    | some d => readDigits base (base * value + d) cs
    | none => (value, c :: cs)

/-- The number without a sign at the beginning of `cs`, and what follows. After a zero it is in base
eight, and after a zero and an X in base sixteen. -/
def readUnsigned (cs : List Char) : Nat × List Char :=
  match cs with
  | '0' :: x :: d :: rest =>
    if (x == 'x' || x == 'X') && (digit? 16 d).isSome then readDigits 16 0 (d :: rest)
    else readDigits 8 0 cs
  | '0' :: _ => readDigits 8 0 cs
  | _ => readDigits 10 0 cs

/-- Blanks around numbers. -/
def isNumberBlank (c : Char) : Bool :=
  " \t\n\x0b\x0c\x0d".contains c

/-- The number at the beginning of `cs` after blanks, and what follows; nothing if there is none. -/
def readSigned? (cs : List Char) : Option (Int × List Char) :=
  let cs := cs.dropWhile isNumberBlank
  let (negative, digits) := match cs with
    | '-' :: ds => (true, ds)
    | '+' :: ds => (false, ds)
    | ds => (false, ds)
  if digits.head?.any Char.isDigit then
    let (n, rest) := readUnsigned digits
    some (if negative then -n else n, rest)
  else none

/-- The number in base ten that a text is, if it fits in 64 bits. -/
def decimal? (s : String) : Option Int :=
  let cs := s.toList.dropWhile isNumberBlank
  let (negative, cs) := match cs with
    | '-' :: ds => (true, ds)
    | '+' :: ds => (false, ds)
    | ds => (false, ds)
  let digits := cs.takeWhile Char.isDigit
  let n : Int := (readDigits 10 0 digits).1
  let n := if negative then -n else n
  if digits.isEmpty || !(cs.drop digits.length).all isNumberBlank || n < -(2 ^ 63) || 2 ^ 63 ≤ n then none
  else some n

/-- The number, or the least or greatest one that fits in 64 bits. -/
def clamped (n : Int) : Int :=
  max (-(2 ^ 63)) (min n (2 ^ 63 - 1))

/-! ### Lexemes -/

/-- A lexeme of an expression. -/
inductive Lexeme where
  | number (n : Int)
  | name (s : String)
  | sign (s : String)
  /-- A character with no meaning. -/
  | stray
deriving DecidableEq, Repr

/-- Signs, the longer ones first. -/
def signs : List String :=
  ["<<=", ">>=", "&&", "||", "==", "!=", "<=", ">=", "<<", ">>", "*=", "/=", "%=", "+=", "-=", "&=", "^=",
    "|=", "(", ")", "*", "/", "%", "+", "-", "<", ">", "&", "^", "|", "!", "~", "?", ":", "="]

/-- The lexemes of a text up to the first that has no meaning. -/
def lexemes : (fuel : Nat) → List Char → List Lexeme
  | 0, _ => []
  | _, [] => []
  | fuel + 1, c :: cs =>
    if c == ' ' || c == '\t' || c == '\n' then lexemes fuel cs
    else if c.isDigit then
      let (n, rest) := readUnsigned (c :: cs)
      .number (clamped n) :: lexemes fuel rest
    else if c.isAlpha || c == '_' then
      let name := (c :: cs).takeWhile fun d => d.isAlphanum || d == '_'
      .name (String.ofList name) :: lexemes fuel ((c :: cs).drop name.length)
    else
      match signs.find? fun s => s.toList.isPrefixOf (c :: cs) with
      | some s => .sign s :: lexemes fuel ((c :: cs).drop s.length)
      | none => [.stray]

/-! ### Reading -/

/-- What a reader of expressions gives: an expression and the lexemes after it, or what was expected. -/
abbrev Expected := Except String (Expression × List Lexeme)

/-- The operation of a sign with which a variable is given a value. -/
def assignment? (sign : String) : Option (Option Operation) :=
  if sign == "=" then some none
  else
    match sign.toList.reverse with
    | '=' :: rest => (Operation.table.lookup (String.ofList rest.reverse)).map some
    | _ => none

mutual

/-- Reads an expression. -/
def readAssignment : (fuel : Nat) → List Lexeme → Expected
  | 0, _ => .error "expecting primary"
  | fuel + 1, ls =>
    match ls with
    | .name s :: .sign op :: rest =>
      match if op == "==" || op == "<=" || op == ">=" || op == "!=" then none else assignment? op with
      | some op => (readAssignment fuel rest).map fun (e, rest) => (.assign s op e, rest)
      | none => readChoice fuel ls
    | ls => readChoice fuel ls

/-- Reads an expression that is no assignment. -/
def readChoice : (fuel : Nat) → List Lexeme → Expected
  | 0, _ => .error "expecting primary"
  | fuel + 1, ls => do
    let (test, rest) ← readEither fuel ls
    match rest with
    | .sign "?" :: rest =>
      let (a, rest) ← readAssignment fuel rest
      match rest with
      | .sign ":" :: rest =>
        let (b, rest) ← readChoice fuel rest
        return (.choice test a b, rest)
      | _ => throw "expecting ':'"
    | rest => return (test, rest)

/-- Reads expressions of which one is enough. -/
def readEither : (fuel : Nat) → List Lexeme → Expected
  | 0, _ => .error "expecting primary"
  | fuel + 1, ls => do
    let (a, rest) ← readBoth fuel ls
    match rest with
    | .sign "||" :: rest =>
      let (b, rest) ← readEither fuel rest
      return (.either a b, rest)
    | rest => return (a, rest)

/-- Reads expressions that both count. -/
def readBoth : (fuel : Nat) → List Lexeme → Expected
  | 0, _ => .error "expecting primary"
  | fuel + 1, ls => do
    let (a, rest) ← readPrimary fuel ls
    let (a, rest) ← readOperations fuel 8 a rest
    match rest with
    | .sign "&&" :: rest =>
      let (b, rest) ← readBoth fuel rest
      return (.both a b, rest)
    | rest => return (a, rest)

/-- Reads the operations after `a` that bind less loosely than `looseness`. -/
def readOperations : (fuel looseness : Nat) → Expression → List Lexeme → Expected
  | 0, _, _, _ => .error "expecting primary"
  | fuel + 1, looseness, a, ls =>
    match ls with
    | .sign s :: rest =>
      match Operation.table.lookup s with
      | none => .ok (a, ls)
      | some op =>
        if op.looseness < looseness then do
          let (b, rest) ← readPrimary fuel rest
          let (b, rest) ← readOperations fuel op.looseness b rest
          readOperations fuel looseness (.binary op a b) rest
        else .ok (a, ls)
    | _ => .ok (a, ls)

/-- Reads a number, a variable or an expression in brackets, with the signs before it. -/
def readPrimary : (fuel : Nat) → List Lexeme → Expected
  | 0, _ => .error "expecting primary"
  | fuel + 1, ls =>
    match ls with
    | .number n :: rest => .ok (.number n, rest)
    | .name s :: rest => .ok (.variableNamed s, rest)
    | .sign "(" :: rest => do
      let (e, rest) ← readAssignment fuel rest
      match rest with
      | .sign ")" :: rest => return (e, rest)
      | _ => throw "expecting ')'"
    | .sign "+" :: rest => readPrimary fuel rest
    | .sign "-" :: rest => (readPrimary fuel rest).map fun (e, rest) => (.negative e, rest)
    | .sign "!" :: rest => (readPrimary fuel rest).map fun (e, rest) => (.not e, rest)
    | .sign "~" :: rest => (readPrimary fuel rest).map fun (e, rest) => (.flipped e, rest)
    | _ => .error "expecting primary"

end

namespace Expression

/-- The expression that a text is, or what was expected. -/
def read (text : String) : Except String Expression := do
  let ls := lexemes (text.length + 1) text.toList
  let (e, rest) ← readAssignment (8 * ls.length + 8) ls
  if rest.isEmpty then return e else throw "expecting EOF"

/-! ### Values -/

/-- Why an expression has no value. -/
inductive ValueError where
  | divisionByZero
  /-- The variable's value is no number. -/
  | notNumber (text : String)
  /-- The variable keeps its value. -/
  | readOnly (name : String)
deriving DecidableEq, Repr

/-- The number that a variable's text stands for; an empty one stands for zero. -/
def numberOf (text : String) : Except ValueError Int :=
  if text.isEmpty then .ok 0
  else
    match readSigned? text.toList with
    | some (n, rest) =>
      if rest.all isNumberBlank then .ok (clamped n)
      else .error (.notNumber text)
    | none => .error (.notNumber text)

/-- The value, in a state from which variables are read and to which they are written. -/
def value {σ : Type} (get : σ → String → Option String)
    (put : σ → String → String → Except ValueError σ) (e : Expression) :
    StateT σ (Except ValueError) Int := do
  match e with
  | number n => return n
  | variableNamed name =>
    let text := (get (← getThe σ) name).getD ""
    liftM (numberOf text)
  | negative e => return wrapped (-(← e.value get put))
  | not e => return Operation.truth ((← e.value get put) == 0)
  | flipped e => return -1 - (← e.value get put)
  | binary op a b =>
    let x ← a.value get put
    let y ← b.value get put
    match op.combine? x y with
    | some z => return z
    | none => throw .divisionByZero
  | both a b =>
    if (← a.value get put) == 0 then return 0
    return Operation.truth ((← b.value get put) != 0)
  | either a b =>
    if (← a.value get put) != 0 then return 1
    return Operation.truth ((← b.value get put) != 0)
  | choice test a b =>
    if (← test.value get put) != 0 then a.value get put else b.value get put
  | assign name op e =>
    let y ← e.value get put
    let z ← match op with
      | none => pure y
      | some op => do
        let x ← liftM (numberOf ((get (← getThe σ) name).getD ""))
        match op.combine? x y with
        | some z => pure z
        | none => throw .divisionByZero
    match put (← getThe σ) name (toString z) with
    | .ok s => set s
    | .error e => throw e
    return z

end Expression

end Growth.Shell
