import Growth.Shell.Source

/-! Reading the parts of words. -/

namespace Growth.Shell

/-- What parts stand in. -/
inductive Context where
  | word
  /-- The word that ends a document, in which nothing stands for anything else. -/
  | mark
  | quotes
  /-- The braces of a parameter, between quotes or not, and between quotes inside them or not. -/
  | braces (quoted inner : Bool)
  /-- An expression with some brackets open. -/
  | expression (depth : Nat)
  /-- The lines of a document. -/
  | document
deriving DecidableEq, Repr

namespace Context

/-- Whether what stands there is quoted. -/
def isQuoted : Context → Bool
  | word | mark => false
  | quotes | expression _ | document => true
  | braces quoted _ => quoted

/-- Whether a backslash takes away the meaning that `c` has there. -/
def isEscapable (context : Context) (c : Char) : Bool :=
  match context with
  | word | mark | braces false _ => true
  | quotes | expression _ => "\\`$\"".contains c
  | braces true _ => "\\`$\"\x7d".contains c
  | document => "\\`$".contains c

/-- Whether `c` ends a word. -/
def endsWord (c : Char) : Bool :=
  " \t\n;&|()<>".contains c

end Context

/-- The characters up to a single quote. -/
def singleQuoted : List Char → Option (List Char × List Char)
  | [] => none
  | '\'' :: cs => some ([], cs)
  | c :: cs => (singleQuoted cs).map fun (more, rest) => (c :: more, rest)

/-- The characters up to a back quote, before which some backslashes fall away, and how many lines end
among them. -/
def backQuoted (inQuotes : Bool) : List Char → Option (List Char × List Char × Nat)
  | [] => none
  | '\x60' :: cs => some ([], cs, 0)
  | '\\' :: '\n' :: cs => (backQuoted inQuotes cs).map fun (more, rest, n) => (more, rest, n + 1)
  | '\\' :: c :: cs =>
    (backQuoted inQuotes cs).map fun (more, rest, n) =>
      (if "\\`$".contains c || inQuotes && c == '"' then c :: more else '\\' :: c :: more, rest, n)
  | c :: cs =>
    (backQuoted inQuotes cs).map fun (more, rest, n) =>
      (c :: more, rest, if c == '\n' then n + 1 else n)

/-- Runs a reader on another text and comes back. -/
def onText {α : Type} (text : List Char) (line : Nat) (reader : Reading α) : Reading α := do
  let outer ← get
  set { outer with rest := text, line, token := .newline, again := false, awaited := [] }
  let found ← reader
  modify fun inner => { outer with documents := inner.documents }
  return found

/-- The name of a parameter between braces: the name, and whether its length is meant. -/
def bracedName? (cs : List Char) : Option (String × Bool × List Char) :=
  let name (cs : List Char) : Option (List Char) :=
    match cs with
    | c :: _ =>
      if startsName c then some (cs.takeWhile isNameChar)
      else if c.isDigit then some (cs.takeWhile Char.isDigit)
      else none
    | [] => none
  let found (n : List Char) (cs : List Char) (isLength : Bool) :=
    (String.ofList n, isLength, cs.drop n.length)
  match cs with
  | '#' :: c :: d :: rest =>
    if c == '_' || c.isAlphanum then (name (c :: d :: rest)).map (found · (c :: d :: rest) true)
    else if c != '\x7d' && d == '\x7d' then
      if isSpecial c then some (String.ofList [c], true, d :: rest) else none
    else some ("#", false, c :: d :: rest)
  | c :: rest =>
    match name cs with
    | some n => some (found n cs false)
    | none => if isSpecial c then some (String.ofList [c], false, rest) else none
  | [] => none

/-- What the signs for a missing parameter mean. -/
def fallbacks : List (Char × Fallback) :=
  [('-', .instead), ('+', .alternative), ('=', .assigned), ('?', .refused)]

mutual

/-- Reads parts to the end of their context. `inner` reads commands, up to and with a closing bracket if
so told and up to the end of the text if not. Every part takes a character at least, of which there are
less than `fuel`. -/
def parts (inner : Bool → Reading (Option Command)) : (fuel : Nat) → Context → Reading Word
  | 0, _ => return []
  | fuel + 1, context => do
    let cs ← upcoming
    let quoted := context.isQuoted
    let plain (c : Char) (rest : List Char) : Reading Word := do
      goTo rest
      if c == '\n' then endLine
      return .char c quoted :: (← parts inner fuel context)
    match cs with
    | [] =>
      match context with
      | .word | .mark | .document => return []
      | .expression _ => refuse "Missing '))'"
      | .braces false _ => refuse "Missing '\x7d'"
      | .quotes | .braces true _ => refuse "Unterminated quoted string"
    | c :: rest =>
      if (context == .word || context == .mark) && Context.endsWord c then return []
      else if c == '\\' then
        match rest with
        | [] => do
          goTo []
          return [.char '\\' true]
        | d :: rest => do
          goTo rest
          if d == '\n' then endLine
          let more ← parts inner fuel context
          if context.isEscapable d then return .char d true :: more
          else return .char '\\' true :: .char d true :: more
      else if c == '\'' && !quoted then
        match singleQuoted rest with
        | none => do
          modify fun s => { s with line := s.line + (rest.filter (· == '\n')).length }
          refuse "Unterminated quoted string"
        | some (text, rest) => do
          modify fun s =>
            { s with rest, line := s.line + (text.filter (· == '\n')).length }
          return .quotes :: text.map (.char · true) ++ (← parts inner fuel context)
      else if c == '"' then
        match context with
        | .quotes => do
          goTo rest
          return []
        | .word | .mark | .braces false _ => do
          goTo rest
          let text ← parts inner fuel .quotes
          return .quotes :: text ++ (← parts inner fuel context)
        | .braces true inside => do
          goTo rest
          parts inner fuel (.braces true !inside)
        | .expression _ => do
          goTo rest
          parts inner fuel context
        | .document => plain c rest
      else if context == .mark then plain c rest
      else if c == '$' then do
        goTo rest
        let found ← dollar inner fuel context
        return found ++ (← parts inner fuel context)
      else if c == '\x60' then
        match backQuoted quoted rest with
        | none => do
          modify fun s => { s with line := s.line + (rest.filter (· == '\n')).length }
          refuse "EOF in backquote substitution"
        | some (text, rest, n) => do
          let command ← onText text 1 (inner false)
          modify fun s => { s with rest, line := s.line + n }
          return .output command quoted :: (← parts inner fuel context)
      else
        match context with
        | .braces _ inside =>
          if c == '\x7d' && !inside then do
            goTo rest
            return []
          else plain c rest
        | .expression depth =>
          if c == '(' then do
            goTo rest
            return .char c true :: (← parts inner fuel (.expression (depth + 1)))
          else if c == ')' then do
            goTo rest
            if 0 < depth then return .char c true :: (← parts inner fuel (.expression (depth - 1)))
            match (← upcoming) with
            | ')' :: rest => do
              goTo rest
              return []
            | _ => return .char c true :: (← parts inner fuel context)
          else plain c rest
        | _ => plain c rest

/-- Reads what follows a dollar sign, which stands for itself where nothing else does. -/
def dollar (inner : Bool → Reading (Option Command)) : (fuel : Nat) → Context → Reading Word
  | 0, _ => return []
  | fuel + 1, context => do
    let quoted := context.isQuoted
    match (← upcoming) with
    | '(' :: rest => do
      goTo rest
      match (← upcoming) with
      | '(' :: rest => do
        goTo rest
        return [.arithmetic (← parts inner fuel (.expression 0)) quoted]
      | _ => do
        let outer ← get
        set { outer with again := false, awaited := [] }
        let command ← inner true
        modify fun s => { s with awaited := outer.awaited }
        return [.output command quoted]
    | '\x7b' :: rest => do
      goTo rest
      return [← braced inner fuel context]
    | c :: rest =>
      if startsName c then do
        goTo ((c :: rest).dropWhile isNameChar)
        return [.value (String.ofList ((c :: rest).takeWhile isNameChar)) quoted]
      else if isSpecial c then do
        goTo rest
        return [.value (String.ofList [c]) quoted]
      else return [.char '$' quoted]
    | [] => return [.char '$' quoted]

/-- Reads a parameter between braces after the first of them. -/
def braced (inner : Bool → Reading (Option Command)) : (fuel : Nat) → Context → Reading Part
  | 0, _ => return .malformed
  | fuel + 1, context => do
    let quoted := context.isQuoted
    let malformed : Reading Part := do
      let _ ← parts inner fuel (.braces quoted false)
      return .malformed
    match bracedName? (← upcoming) with
    | none => malformed
    | some (name, isLength, cs) => do
      goTo cs
      match isLength, cs with
      | true, '\x7d' :: rest => do
        goTo rest
        return .length name quoted
      | true, _ => malformed
      | false, '\x7d' :: rest => do
        goTo rest
        return .value name quoted
      | false, c :: rest =>
        let (emptyToo, signs) := if c == ':' then (true, rest) else (false, cs)
        match signs with
        | [] => malformed
        | sign :: rest =>
          match fallbacks.lookup sign with
          | some kind => do
            goTo rest
            return .fallback name kind emptyToo (← parts inner fuel (.braces quoted false)) quoted
          | none =>
            if !emptyToo && (sign == '%' || sign == '#') then
              let longest := rest.head? == some sign
              goTo (if longest then rest.tail else rest)
              return .trimmed name (sign == '%') longest (← parts inner fuel (.braces false false))
                quoted
            else malformed
      | false, [] => malformed

end

end Growth.Shell
