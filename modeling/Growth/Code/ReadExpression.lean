import Growth.Code.Outcome
import Growth.Code.Precedence

/-! Reading expressions, level by level. -/

namespace Growth.Code

/-- The comparison at the beginning of `ts` and what follows it. -/
def comparison? (ts : List Token) :
    Option (Comparison × { rest : List Token // rest.length < ts.length }) :=
  match ts with
  | ⟨.mark (.relation r), _, _⟩ :: rest => some (.relation r, ⟨rest, by simp⟩)
  | ⟨.keyword .inKw, _, _⟩ :: rest => some (.member, ⟨rest, by simp⟩)
  | ⟨.keyword .notKw, _, _⟩ :: ⟨.keyword .inKw, _, _⟩ :: rest =>
    some (.notMember, ⟨rest, by simp only [List.length_cons]; omega⟩)
  | ⟨.keyword .isKw, _, _⟩ :: ⟨.keyword .notKw, _, _⟩ :: rest =>
    some (.notIdentical, ⟨rest, by simp only [List.length_cons]; omega⟩)
  | ⟨.keyword .isKw, _, _⟩ :: rest => some (.identical, ⟨rest, by simp⟩)
  | _ => none

/-- How a token joins two operands into an expression of a level that groups to the left. -/
def joining? (level : Precedence) (kind : Kind) :
    Option (Expression → Expression → Expression) :=
  match level, kind with
  | .or, .keyword .orKw => some fun left right => .joined left .or right
  | .and, .keyword .andKw => some fun left right => .joined left .and right
  | .sum, .mark (.operator op) =>
    if op.isAdditive then some fun left right => .binary left op right else none
  | .product, .mark (.operator op) =>
    if op.isMultiplicative then some fun left right => .binary left op right else none
  | _, _ => none

/-- The operator that a sign before an operand is. -/
def sign? : Kind → Option UnaryOperator
  | .mark (.operator .minus) => some .minus
  | .mark (.operator .plus) => some .plus
  | _ => none

/-- Whether an expression can begin with the first of `ts`. -/
def startsExpression : List Token → Bool
  | [] => false
  | t :: _ =>
    match t.kind with
    | .integer _ | .float _ | .string _ | .identifier _ => true
    | .keyword .trueKw | .keyword .falseKw | .keyword .noneKw | .keyword .notKw => true
    | .mark (.opening _) | .mark (.operator .minus) | .mark (.operator .plus) => true
    | _ => false

/-- Reads the strings that follow a string and belong to it. -/
def readStrings (ts : List Token) : Outcome String ts.length :=
  match ts with
  | ⟨.string content, _, _⟩ :: rest => ((readStrings rest).map (content ++ ·)).past
  | ts => .done "" ts (Nat.le_refl _)

mutual

/-- Reads an expression of a level or of a tighter one. -/
def readAt (level : Precedence) (ts : List Token) : Outcome Expression ts.length :=
  match level with
  | .tuple =>
    (readAt .or ts).bind fun first rest _ =>
      if rest.head?.any fun t => t.kind = .mark .comma then
        (readMore rest).map fun others => .tuple (first :: others)
      else .done first rest (Nat.le_refl _)
  | .or => (readAt .and ts).bind fun left rest _ => readJoined .or left rest
  | .and => (readAt .not ts).bind fun left rest _ => readJoined .and left rest
  | .not =>
    match ts with
    | ⟨.keyword .notKw, _, _⟩ :: rest => ((readAt .not rest).map (.unary .not)).past
    | ts => readAt .comparison ts
  | .comparison =>
    (readAt .sum ts).bind fun first rest _ =>
      (readCompared rest).map fun others =>
        if others.isEmpty then first else .compare first others
  | .sum => (readAt .product ts).bind fun left rest _ => readJoined .sum left rest
  | .product => (readAt .sign ts).bind fun left rest _ => readJoined .product left rest
  | .sign =>
    match ts with
    | t :: rest =>
      match sign? t.kind with
      | some op => ((readAt .sign rest).map (.unary op)).past
      | none => readAt .power (t :: rest)
    | [] => unexpected .expression []
  | .power =>
    (readAt .primary ts).bind fun base rest _ =>
      match rest with
      | ⟨.mark (.operator .power), _, _⟩ :: rest =>
        ((readAt .sign rest).map fun exponent => .binary base .power exponent).past
      | rest => .done base rest (Nat.le_refl _)
  | .primary => (readAtom ts).bind fun x rest _ => readSuffixes x rest
termination_by 16 * ts.length + (10 - level.rank)
decreasing_by all_goals grind [Precedence.rank]

/-- Reads the operands joined to `left` at a level that groups to the left. -/
def readJoined (level : Precedence) (left : Expression) (ts : List Token) :
    Outcome Expression ts.length :=
  match ts with
  | [] => .done left [] (Nat.le_refl _)
  | t :: rest =>
    match joining? level t.kind with
    | none => .done left (t :: rest) (Nat.le_refl _)
    | some join =>
      let next : Precedence := match level with
        | .or => .and
        | .and => .not
        | .sum => .product
        | _ => .sign
      ((readAt next rest).bind fun right rest' _ => readJoined level (join left right) rest').past
termination_by 16 * ts.length
decreasing_by all_goals grind [Precedence.rank]

/-- Reads the further operands of a chain of comparisons. -/
def readCompared (ts : List Token) : Outcome (List (Comparison × Expression)) ts.length :=
  match comparison? ts with
  | none => .done [] ts (Nat.le_refl _)
  | some (op, ⟨rest, h⟩) =>
    ((readAt .sum rest).bind fun x rest' _ =>
      (readCompared rest').map ((op, x) :: ·)).widen (Nat.le_of_lt h)
termination_by 16 * ts.length
decreasing_by all_goals grind [Precedence.rank]

/-- Reads the calls, indices and fields that follow `x`. -/
def readSuffixes (x : Expression) (ts : List Token) : Outcome Expression ts.length :=
  match ts with
  | ⟨.mark (.opening .round), _, _⟩ :: rest =>
    ((readItems .round rest).bind fun arguments rest' _ =>
      readSuffixes (.call x arguments) rest').past
  | ⟨.mark (.opening .square), _, _⟩ :: rest =>
    ((readAt .tuple rest).bind fun index rest' _ =>
      (expectClosing .square rest').bind fun _ rest'' _ =>
        readSuffixes (.item x index) rest'').past
  | ⟨.mark .dot, _, _⟩ :: rest =>
    ((expectIdentifier rest).bind fun name rest' _ => readSuffixes (.field x name) rest').past
  | ts => .done x ts (Nat.le_refl _)
termination_by 16 * ts.length
decreasing_by all_goals grind [Precedence.rank]

/-- Reads a literal, a name, or an expression in brackets. -/
def readAtom (ts : List Token) : Outcome Expression ts.length :=
  match ts with
  | ⟨.integer lexeme, _, _⟩ :: rest => .done (.integer lexeme) rest (Nat.le_succ _)
  | ⟨.float value, _, _⟩ :: rest => .done (.float value) rest (Nat.le_succ _)
  | ⟨.string content, _, _⟩ :: rest =>
    ((readStrings rest).map fun more => .string (content ++ more)).past
  | ⟨.identifier name, _, _⟩ :: rest => .done (.name name) rest (Nat.le_succ _)
  | ⟨.keyword .trueKw, _, _⟩ :: rest => .done (.boolean true) rest (Nat.le_succ _)
  | ⟨.keyword .falseKw, _, _⟩ :: rest => .done (.boolean false) rest (Nat.le_succ _)
  | ⟨.keyword .noneKw, _, _⟩ :: rest => .done .none rest (Nat.le_succ _)
  | ⟨.mark (.opening .round), _, _⟩ :: ⟨.mark (.closing .round), _, _⟩ :: rest =>
    .done (.tuple []) rest (by simp only [List.length_cons]; omega)
  | ⟨.mark (.opening .round), _, _⟩ :: rest =>
    ((readAt .tuple rest).bind fun inner rest' _ =>
      (expectClosing .round rest').map fun _ => inner).past
  | ⟨.mark (.opening .square), _, _⟩ :: rest => ((readItems .square rest).map .list).past
  | ⟨.mark (.opening .curly), _, _⟩ :: ⟨.mark (.closing .curly), _, _⟩ :: rest =>
    .done (.dict []) rest (by simp only [List.length_cons]; omega)
  | ⟨.mark (.opening .curly), _, _⟩ :: rest =>
    ((readAt .or rest).bind fun first rest' _ =>
      match rest' with
      | ⟨.mark .colon, _, _⟩ :: rest' =>
        ((readAt .or rest').bind fun value rest'' _ =>
          (readEntries rest'').map fun entries => .dict ((first, value) :: entries)).past
      | ⟨.mark .comma, _, _⟩ :: rest' =>
        ((readItems .curly rest').map fun items => .set (first :: items)).past
      | rest' => (expectClosing .curly rest').map fun _ => .set [first]).past
  | ts => unexpected .expression ts
termination_by 16 * ts.length
decreasing_by all_goals grind [Precedence.rank]

/-- Reads the further expressions of a tuple without parentheses, each after a comma. -/
def readMore (ts : List Token) : Outcome (List Expression) ts.length :=
  match ts with
  | ⟨.mark .comma, _, _⟩ :: rest =>
    if startsExpression rest then
      ((readAt .or rest).bind fun x rest' _ => (readMore rest').map (x :: ·)).past
    else .done [] rest (Nat.le_succ _)
  | ts => .done [] ts (Nat.le_refl _)
termination_by 16 * ts.length
decreasing_by all_goals grind [Precedence.rank]

/-- Reads expressions with commas between them, up to and including a closing bracket. There may be
a comma after the last one. -/
def readItems (b : Bracket) (ts : List Token) : Outcome (List Expression) ts.length :=
  match expectClosing b ts with
  | .done _ rest h => .done [] rest h
  | .failed _ =>
    (readAt .or ts).bind fun x rest _ =>
      match rest with
      | ⟨.mark .comma, _, _⟩ :: rest => ((readItems b rest).map (x :: ·)).past
      | rest => (expectClosing b rest).map fun _ => [x]
termination_by 16 * ts.length + 11
decreasing_by all_goals grind [Precedence.rank]

/-- Reads the further entries of a dictionary, up to and including its closing bracket. -/
def readEntries (ts : List Token) : Outcome (List (Expression × Expression)) ts.length :=
  match ts with
  | ⟨.mark .comma, _, _⟩ :: ⟨.mark (.closing .curly), _, _⟩ :: rest =>
    .done [] rest (by simp only [List.length_cons]; omega)
  | ⟨.mark .comma, _, _⟩ :: rest =>
    ((readAt .or rest).bind fun key rest' _ =>
      (expect (.mark .colon) .colon rest').bind fun _ rest' _ =>
      (readAt .or rest').bind fun value rest' _ =>
        (readEntries rest').map ((key, value) :: ·)).past
  | ts => (expectClosing .curly ts).map fun _ => []
termination_by 16 * ts.length
decreasing_by all_goals grind [Precedence.rank]

end

end Growth.Code
