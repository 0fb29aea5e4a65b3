import Growth.Shell.Expression
import Growth.Shell.World

/-! Conditions on texts, numbers and files. -/

namespace Growth.Shell

open Act

/-- Tests of one word. -/
def unaryTests : List String :=
  ["-r", "-w", "-x", "-e", "-f", "-d", "-c", "-b", "-p", "-u", "-g", "-k", "-s", "-t", "-z", "-n", "-h",
    "-L", "-O", "-G", "-S"]

/-- Tests of two words. -/
def binaryTests : List String :=
  ["=", "==", "!=", "<", ">", "-eq", "-ne", "-ge", "-gt", "-le", "-lt", "-nt", "-ot", "-ef"]

/-- What a word means in a condition. -/
inductive Role where
  | ended
  | unary
  | binary
  | not | and | or
  | opening | closing
  | operand
deriving DecidableEq, Repr

/-- What a word means on its own. -/
def role? (s : String) : Option Role :=
  if unaryTests.contains s then some .unary
  else if binaryTests.contains s then some .binary
  else
    match s with
    | "!" => some .not
    | "-a" => some .and
    | "-o" => some .or
    | "(" => some .opening
    | ")" => some .closing
    | _ => none

/-- What the first of some words means. A test of one word is an operand where nothing follows it, or
before a test of two words that is not the last word. -/
def role : List String → Role
  | [] => .ended
  | s :: rest =>
    match role? s with
    | none => .operand
    | some .unary =>
      let isOperand : Bool := match rest with
        | [] => true
        | [_] => false
        | t :: _ => role? t == some .binary
      if isOperand then .operand else .unary
    | some .opening => if rest.isEmpty then .operand else .opening
    | some r => r

/-- The number that a word is. -/
def numberIn (s : String) : Act Int :=
  match decimal? s with
  | some n => return n
  | none => fail s!"Illegal number: {s}"

/-- Whether a test of one word holds. -/
def testOne (op s : String) : Act Bool := do
  let w ← getThe World
  let found := (w.disk.find w.shell.directory s).toOption.map Prod.snd
  match op with
  | "-z" => return s == ""
  | "-n" => return s != ""
  | "-e" | "-r" | "-w" | "-O" | "-G" => return found.isSome
  | "-x" => return found == some .directory
  | "-f" => return found.any fun
    | .file _ => true
    | _ => false
  | "-d" => return found == some .directory
  | "-c" => return found.any fun
    | .device _ => true
    | _ => false
  | "-s" => return found.any fun
    | .file key => w.disk.content key != ""
    | .directory => true
    | .device _ => false
  | "-t" => do
    let _ ← numberIn s
    return false
  | _ => return false

/-- Whether a test of two words holds. -/
def testTwo (a op b : String) : Act Bool := do
  match op with
  | "=" | "==" => return a == b
  | "!=" => return a != b
  | "<" => return decide (a < b)
  | ">" => return decide (b < a)
  | "-nt" | "-ot" => return false
  | "-ef" => do
    let w ← getThe World
    let find (s : String) := (w.disk.find w.shell.directory s).toOption
    match find a, find b with
    | some x, some y => return x.1 == y.1 || x.2 == y.2 && x.2 != .directory
    | _, _ => return false
  | op => do
    let x ← numberIn a
    let y ← numberIn b
    match op with
    | "-eq" => return x == y
    | "-ne" => return x != y
    | "-lt" => return x < y
    | "-le" => return x ≤ y
    | "-gt" => return y < x
    | _ => return y ≤ x

mutual

/-- The value of conditions of which one is enough, and the words after them. -/
def eitherCondition : (fuel : Nat) → List String → Act (Bool × List String)
  | 0, ws => return (false, ws)
  | fuel + 1, ws => do
    let (a, rest) ← bothCondition fuel ws
    if role rest == .or then
      let (b, rest) ← eitherCondition fuel rest.tail
      return (a || b, rest)
    return (a, rest)

/-- The value of conditions that all count, and the words after them. -/
def bothCondition : (fuel : Nat) → List String → Act (Bool × List String)
  | 0, ws => return (false, ws)
  | fuel + 1, ws => do
    let (a, rest) ← negatedCondition fuel ws
    if role rest == .and then
      let (b, rest) ← bothCondition fuel rest.tail
      return (a && b, rest)
    return (a, rest)

/-- The value of a condition that may be negated, and the words after it. -/
def negatedCondition : (fuel : Nat) → List String → Act (Bool × List String)
  | 0, ws => return (false, ws)
  | fuel + 1, ws => do
    if role ws == .not then
      if ws.tail.isEmpty then return (true, [])
      let (a, rest) ← negatedCondition fuel ws.tail
      return (!a, rest)
    primaryCondition fuel ws

/-- The value of a single condition, and the words after it. -/
def primaryCondition : (fuel : Nat) → List String → Act (Bool × List String)
  | 0, ws => return (false, ws)
  | fuel + 1, ws => do
    match ws, role ws with
    | [], _ => return (false, [])
    | _ :: rest, .opening => do
      if role rest == .closing then return (false, rest.tail)
      let (a, rest) ← eitherCondition fuel rest
      if role rest == .closing then return (a, rest.tail)
      fail "closing paren expected"
    | op :: rest, .unary => do
      match rest with
      | s :: rest => return (← testOne op s, rest)
      | [] => fail s!"{op}: argument expected"
    | a :: rest, _ => do
      match rest, role rest with
      | op :: b :: rest, .binary => return (← testTwo a op b, rest)
      | [op], .binary => fail s!"{op}: argument expected"
      | rest, _ => return (a != "", rest)

end

/-- Whether the condition holds that words are. A few words are read in the way that makes most sense of
them. -/
def condition : (fuel : Nat) → List String → Act Bool
  | 0, _ => return false
  | fuel + 1, ws => do
    let whole (ws : List String) : Act Bool := do
      let (holds, rest) ← eitherCondition (4 * ws.length + 4) ws
      if rest.isEmpty then return holds
      let last := ws.getD (ws.length - rest.length - 1) ""
      fail s!"{last}: unexpected operator"
    match ws with
    | [] => return false
    | [a, op, b] =>
      if role? op == some .binary then testTwo a op b
      else if a == "(" && b == ")" then whole [op]
      else if a == "!" then return !(← condition fuel [op, b])
      else whole ws
    | [a, b, c, d] =>
      if a == "(" && d == ")" then whole [b, c]
      else if a == "!" then return !(← condition fuel [b, c, d])
      else whole ws
    | ws => whole ws

end Growth.Shell
