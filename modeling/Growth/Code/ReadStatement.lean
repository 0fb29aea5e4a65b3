import Growth.Code.ReadExpression
import Growth.Code.Tokens

/-! Reading statements and programs. -/

namespace Growth.Code

/-- The target that an expression read at `p` is. -/
def asTarget (x : Expression) (p : Position) : Except BuildError Target :=
  match x with
  | .name n => .ok (.name n)
  | .item object index => .ok (.item object index)
  | .field object name => .ok (.field object name)
  | _ => .error (.notAssignable p)

/-- Reads what follows an expression at `p` in the same statement: nothing, or what is assigned
to it. -/
def readAssigned (x : Expression) (p : Position) (ts : List Token) : Outcome Statement ts.length :=
  match ts with
  | ⟨.mark .equal, _, _⟩ :: rest =>
    match asTarget x p with
    | .ok target => ((readAt .tuple rest).map fun value => .assign target value).past
    | .error e => .failed e
  | ⟨.mark (.augmented op), _, _⟩ :: rest =>
    match asTarget x p with
    | .ok target => ((readAt .tuple rest).map fun value => .update target op value).past
    | .error e => .failed e
  | ts => .done (.expression x) ts Nat.le.refl

/-- Whether a statement ends before the first of `ts`. -/
def endsStatement : List Token → Bool
  | [] => true
  | t :: _ => t.kind = .newline || t.kind = .mark .semicolon || t.kind = .endOfFile

/-- Reads a statement that has no body. -/
def readSimple (ts : List Token) : Outcome Statement ts.length :=
  match ts with
  | ⟨.keyword .passKw, _, _⟩ :: rest => .done .pass rest (Nat.le_add_right _ 1)
  | ⟨.keyword .breakKw, _, _⟩ :: rest => .done .breakLoop rest (Nat.le_add_right _ 1)
  | ⟨.keyword .continueKw, _, _⟩ :: rest => .done .continueLoop rest (Nat.le_add_right _ 1)
  | ⟨.keyword .returnKw, _, _⟩ :: rest =>
    if endsStatement rest then .done (.result none) rest (Nat.le_add_right _ 1)
    else ((readAt .tuple rest).map fun value => .result (some value)).past
  | ts => (readAt .tuple ts).bind fun x rest _ => readAssigned x (positionOf ts) rest

/-- Reads statements without bodies up to the end of their line. -/
def readLine (ts : List Token) : Outcome (List Statement) (ts.length - 1) :=
  match readSimple ts with
  | .failed e => .failed e
  | .done s rest _ =>
    match rest with
    | ⟨.newline, _, _⟩ :: rest => .done [s] rest (by grind)
    | ⟨.mark .semicolon, _, _⟩ :: ⟨.newline, _, _⟩ :: rest => .done [s] rest (by grind)
    | ⟨.mark .semicolon, _, _⟩ :: rest =>
      ((readLine rest).map (s :: ·)).widen (by grind)
    | rest => unexpected .newline rest
termination_by ts.length
decreasing_by grind

/-- Reads parameters up to and including the closing parenthesis. There may be a comma after the last
one. -/
def readParameters (ts : List Token) : Outcome (List String) ts.length :=
  match ts with
  | ⟨.mark (.closing .round), _, _⟩ :: rest => .done [] rest (Nat.le_add_right _ 1)
  | ⟨.identifier name, _, _⟩ :: ⟨.mark .comma, _, _⟩ :: rest =>
    ((readParameters rest).map (name :: ·)).past.past
  | ⟨.identifier name, _, _⟩ :: rest => ((expectClosing .round rest).map fun _ => [name]).past
  | ts => unexpected .identifier ts

/-- Reads what stands before the body of a function, after its keyword. -/
def readSignature (ts : List Token) : Outcome (String × List String) ts.length :=
  (expectIdentifier ts).bind fun name rest _ =>
  (expect (.mark (.opening .round)) .openParen rest).bind fun _ rest _ =>
  (readParameters rest).bind fun parameters rest _ =>
  (expect (.mark .colon) .colon rest).map fun _ => (name, parameters)

/-- Reads what stands before the body of a counting loop, after its keyword. -/
def readCounter (ts : List Token) : Outcome (String × Expression) ts.length :=
  (expectIdentifier ts).bind fun counter rest _ =>
  (expect (.keyword .inKw) .inWord rest).bind fun _ rest _ =>
  (readAt .tuple rest).bind fun iterable rest _ =>
  (expect (.mark .colon) .colon rest).map fun _ => (counter, iterable)

/-- Reads a condition and the colon after it. -/
def readCondition (ts : List Token) : Outcome Expression ts.length :=
  (readAt .or ts).bind fun condition rest _ =>
  (expect (.mark .colon) .colon rest).map fun _ => condition

mutual

/-- Reads statements up to the end of the block that they are in. -/
def readBlock (ts : List Token) : Outcome (List Statement) ts.length :=
  match ts with
  | [] => .done [] [] (Nat.le_refl _)
  | t :: rest =>
    if t.kind = .newline then (readBlock rest).past
    else if t.kind = .dedent || t.kind = .endOfFile then .done [] (t :: rest) (Nat.le_refl _)
    else
      ((readStatement t rest).bind fun statements rest' _ =>
        (readBlock rest').map (statements ++ ·)).past
termination_by 4 * ts.length
decreasing_by all_goals grind

/-- Reads the statement that begins with `t`, or the statements of the line that does. -/
def readStatement (t : Token) (ts : List Token) : Outcome (List Statement) ts.length :=
  match t.kind with
  | .keyword .defKw =>
    (readSignature ts).bind fun (name, parameters) rest _ =>
    (readSuite rest).map fun body => [.function name parameters body]
  | .keyword .ifKw => (readBranch ts).map fun s => [s]
  | .keyword .whileKw =>
    (readCondition ts).bind fun condition rest _ =>
    (readSuite rest).map fun body => [.whileLoop condition body]
  | .keyword .forKw =>
    (readCounter ts).bind fun (counter, iterable) rest _ =>
    (readSuite rest).map fun body => [.forLoop counter iterable body]
  | _ => readLine (t :: ts)
termination_by 4 * ts.length + 3
decreasing_by all_goals grind

/-- Reads a branch, after its keyword, with what follows it. -/
def readBranch (ts : List Token) : Outcome Statement ts.length :=
  (readCondition ts).bind fun condition rest _ =>
  (readSuite rest).bind fun body rest _ =>
    match rest with
    | ⟨.keyword .elifKw, _, _⟩ :: rest =>
      ((readBranch rest).map fun s => .branch condition body [s]).past
    | ⟨.keyword .elseKw, _, _⟩ :: rest =>
      ((expect (.mark .colon) .colon rest).bind fun _ rest' _ =>
        (readSuite rest').map fun other => .branch condition body other).past
    | rest => .done (.branch condition body []) rest (Nat.le_refl _)
termination_by 4 * ts.length + 2
decreasing_by all_goals grind

/-- Reads a body: an indented block, or statements on the line that it follows on. -/
def readSuite (ts : List Token) : Outcome (List Statement) ts.length :=
  match ts with
  | ⟨.newline, _, _⟩ :: rest =>
    ((expect .indent .block rest).bind fun _ rest' _ =>
      (readBlock rest').bind fun body rest'' _ =>
      (expect .dedent .dedent rest'').map fun _ => body).past
  | ts => (readLine ts).widen (Nat.sub_le _ _)
termination_by 4 * ts.length + 1
decreasing_by all_goals grind

end

namespace Module

/-- The program that tokens make. -/
def ofTokens (ts : List Token) : Except BuildError Module :=
  match readBlock ts with
  | .failed e => .error e
  | .done body rest _ =>
    match rest with
    | t :: _ =>
      if t.kind = .endOfFile then .ok ⟨body⟩
      else .error (.unexpected .expression t.kind t.place.position)
    | [] => .ok ⟨body⟩

/-- The program that a text is. -/
def ofText (source : String) : Except BuildError Module :=
  match tokens source with
  | .ok ts => ofTokens ts
  | .error e => .error (.scan e)

end Module

end Growth.Code
