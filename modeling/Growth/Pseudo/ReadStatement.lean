import Growth.Pseudo.ReadCondition

/-! Reading statements. An error inside a statement ends that statement; reading goes on at the next
token that ends a block or begins a statement, and never passes a token that a block around it
waits for. -/

namespace Growth.Pseudo

namespace Attempt

variable {α : Type} {ts : List Token}

/-- The outcome after the token `t` has been taken. -/
def past (t : Token) (a : Attempt α ts) : Attempt α (t :: ts) :=
  ⟨a.stops, a.reading.past t⟩

end Attempt

/-- Whether `ts` begins with a target and an arrow. -/
def startsAssignment : List Token → Bool
  | ⟨.name, _, _⟩ :: ⟨.arrow, _, _⟩ :: _ => true
  | ⟨.name, _, _⟩ :: ⟨.openBracket, _, _⟩ :: index :: ⟨.closeBracket, _, _⟩ ::
      ⟨.arrow, _, _⟩ :: _ =>
    index.kind = .number || index.kind = .name
  | _ => false

/-- Whether `ts` begins with a token after which reading can go on. -/
def startsStatement (ts : List Token) : Bool :=
  match ts with
  | ⟨.ifKw, _, _⟩ :: _ | ⟨.forKw, _, _⟩ :: _ | ⟨.repeatKw, _, _⟩ :: _
  | ⟨.procedureKw, _, _⟩ :: _ | ⟨.returnKw, _, _⟩ :: _ => true
  | ts => startsAssignment ts

/-- What is left of `ts` from the first token on that ends a block or begins a statement. -/
def resume : (ts : List Token) → { rest : List Token // rest <:+ ts }
  | [] => ⟨[], [], rfl⟩
  | t :: rest =>
    if t.kind.endsBlock || startsStatement (t :: rest) then ⟨t :: rest, [], rfl⟩
    else
      let ⟨rest', h⟩ := resume rest
      ⟨rest', h.trans (List.suffix_cons t rest)⟩

/-- Where reading goes on after it stopped at the first of `ts`: past that token, unless one of the
blocks around waits for it. -/
def recover (awaited : List Kind) : (ts : List Token) → { rest : List Token // rest <:+ ts }
  | [] => ⟨[], [], rfl⟩
  | t :: rest =>
    if t.kind ∈ awaited then resume (t :: rest)
    else
      let ⟨rest', h⟩ := resume rest
      ⟨rest', h.trans (List.suffix_cons t rest)⟩

/-- Reads what follows the name in a target. -/
def readTarget (name : String) (ts : List Token) : Reading Target ts :=
  match ts with
  | ⟨.openBracket, _, _⟩ :: rest =>
    (match rest with
    | ⟨.number, lexeme, _⟩ :: rest =>
      ((expect .closeBracket rest).map fun _ => Target.item name (.number lexeme)).past _
    | ⟨.name, index, _⟩ :: rest =>
      ((expect .closeBracket rest).map fun _ => Target.item name (.name index)).past _
    | rest => .stuck rest (List.suffix_refl _) : Reading Target rest).past _
  | ts => .done (.name name) ts (List.suffix_refl _)

/-- Reads an assignment after the name it begins with. -/
def readAssignment (name : String) (ts : List Token) : Reading Statement ts :=
  (readTarget name ts).bind fun target rest _ =>
  (expect .arrow rest).bind fun _ rest _ =>
  (readCalc rest).map fun value => .assign target value

/-- Reads what follows the word for a result. A name that begins an assignment is not its value. -/
def readResult (ts : List Token) : Reading Statement ts :=
  let starts := match ts with
    | ⟨.number, _, _⟩ :: _ | ⟨.name, _, _⟩ :: _ | ⟨.openParen, _, _⟩ :: _
    | ⟨.openBrace, _, _⟩ :: _ | ⟨.openBracket, _, _⟩ :: _ => true
    | _ => false
  if starts && !startsAssignment ts then (readCalc ts).map fun value => .result (some value)
  else .done (.result none) ts (List.suffix_refl _)

/-- Reads one or more parameters up to and including the closing parenthesis. -/
def readParametersTail (ts : List Token) : Reading (List String) ts :=
  match ts with
  | ⟨.name, parameter, _⟩ :: ⟨.comma, _, _⟩ :: rest =>
    (((readParametersTail rest).map (parameter :: ·)).past _).past _
  | ⟨.name, parameter, _⟩ :: rest => ((expect .closeParen rest).map fun _ => [parameter]).past _
  | ts => .stuck ts (List.suffix_refl _)

/-- Reads parameters up to and including the closing parenthesis. -/
def readParameters (ts : List Token) : Reading (List String) ts :=
  match ts with
  | ⟨.closeParen, _, _⟩ :: rest => .done [] rest (List.suffix_cons _ _)
  | ts => readParametersTail ts

/-- Reads the name and the parameters of a procedure. -/
def readSignature (ts : List Token) : Reading (String × List String) ts :=
  (expect .name ts).bind fun name rest _ =>
  (expect .openParen rest).bind fun _ rest _ =>
  (readParameters rest).map fun parameters => (name.lexeme, parameters)

/-- Reads what a counter ranges over. -/
def readSource (ts : List Token) : Reading Source ts :=
  (readCalc ts).bind fun first rest _ =>
    match rest with
    | ⟨.toKw, _, _⟩ :: rest =>
      ((readCalc rest).bind fun last rest _ =>
        match rest with
        | ⟨.byKw, _, _⟩ :: rest => ((readCalc rest).map fun step => .steps first last step).past _
        | rest => .done (.interval first last) rest (List.suffix_refl _)).past _
    | rest => .done (.values first) rest (List.suffix_refl _)

/-- Reads the counter of a loop and what it ranges over, up to and including the word that opens
the loop's body. -/
def readEach (ts : List Token) : Reading (String × Source) ts :=
  (expect .name ts).bind fun counter rest _ =>
  (expect .inKw rest).bind fun _ rest _ =>
  (readSource rest).bind fun source rest _ =>
  (expect .doKw rest).map fun _ => (counter.lexeme, source)

/-- Reads a condition up to and including the word that opens the body of a branch. -/
def readTest (ts : List Token) : Reading Condition ts :=
  (readCondition ts).bind fun condition rest _ => (expect .thenKw rest).map fun _ => condition

/-- Statements read from `ts`, the errors met between and inside them, and the tokens left. -/
structure Block (ts : List Token) where
  statements : List Statement
  stops : List (List Token)
  rest : List Token
  suffix : rest <:+ ts

namespace Block

/-- Nothing read. -/
def empty (ts : List Token) : Block ts :=
  ⟨[], [], ts, List.suffix_refl _⟩

/-- The block as the body of a statement: it may be empty only if errors were met in it. -/
def body {ts : List Token} (b : Block ts) : Attempt (List Statement) ts :=
  if b.statements.isEmpty && b.stops.isEmpty then ⟨[], .stuck b.rest b.suffix⟩
  else ⟨b.stops, .done b.statements b.rest b.suffix⟩

end Block

mutual

/-- Reads statements up to a token of a kind in `awaited`, or to the end. -/
def readStatements (awaited : List Kind) (ts : List Token) : Block ts :=
  match ts with
  | [] => .empty []
  | t :: rest =>
    if t.kind ∈ awaited then .empty (t :: rest)
    else
      match readStatement awaited t rest with
      | none =>
        let ⟨rest', h⟩ := resume rest
        let more := readStatements awaited rest'
        ⟨more.statements, (t :: rest) :: more.stops, more.rest,
          more.suffix.trans (h.trans (List.suffix_cons t rest))⟩
      | some ⟨stops, .done statement rest' h⟩ =>
        let more := readStatements awaited rest'
        ⟨statement :: more.statements, stops ++ more.stops, more.rest,
          more.suffix.trans (h.trans (List.suffix_cons t rest))⟩
      | some ⟨stops, .stuck rest' h⟩ =>
        let ⟨rest'', h'⟩ := recover awaited rest'
        let more := readStatements awaited rest''
        ⟨more.statements, stops ++ rest' :: more.stops, more.rest,
          more.suffix.trans (h'.trans (h.trans (List.suffix_cons t rest)))⟩
termination_by 3 * ts.length
decreasing_by all_goals grind [→ List.IsSuffix.length_le]

/-- Reads the statement that begins with `t`, if a statement can. -/
def readStatement (awaited : List Kind) (t : Token) (ts : List Token) :
    Option (Attempt Statement ts) :=
  match t.kind with
  | .name => some (.ofReading (readAssignment t.lexeme ts))
  | .returnKw => some (.ofReading (readResult ts))
  | .ifKw => some <|
    (Attempt.ofReading (readTest ts)).bind fun condition rest _ =>
    (readBody awaited [.elseKw, .endIf] rest).bind fun body rest _ =>
      match rest with
      | ⟨.elseKw, _, _⟩ :: rest =>
        ((readBody awaited [.endIf] rest).bind fun other rest _ =>
          .ofReading ((expect .endIf rest).map fun _ => .choice condition body other)).past _
      | rest => .ofReading ((expect .endIf rest).map fun _ => .branch condition body)
  | .forKw => some <|
    (Attempt.ofReading (readEach ts)).bind fun (counter, source) rest _ =>
    (readBody awaited [.endFor] rest).bind fun body rest _ =>
      .ofReading ((expect .endFor rest).map fun _ => .each counter source body)
  | .repeatKw => some <|
    (readBody awaited [.untilKw] ts).bind fun body rest _ =>
      .ofReading <| (expect .untilKw rest).bind fun _ rest _ =>
        (readCondition rest).map fun condition => .repetition body condition
  | .procedureKw => some <|
    (Attempt.ofReading (readSignature ts)).bind fun (name, parameters) rest _ =>
    (readBody awaited [.endProc] rest).bind fun body rest _ =>
      .ofReading ((expect .endProc rest).map fun _ => .procedure name parameters body)
  | _ => none
termination_by 3 * ts.length + 2
decreasing_by all_goals grind [→ List.IsSuffix.length_le]

/-- Reads the statements of a body that ends at a token of a kind in `closing`. -/
def readBody (awaited closing : List Kind) (ts : List Token) : Attempt (List Statement) ts :=
  (readStatements (closing ++ awaited) ts).body
termination_by 3 * ts.length + 1
decreasing_by all_goals grind [→ List.IsSuffix.length_le]

end

/-- Reads a whole text. Where it holds no statement and no error, its end is the error. -/
def readProgram (ts : List Token) : List Statement × List (List Token) :=
  let block := readStatements [] ts
  if block.statements.isEmpty && block.stops.isEmpty then ([], [block.rest])
  else (block.statements, block.stops)

end Growth.Pseudo
