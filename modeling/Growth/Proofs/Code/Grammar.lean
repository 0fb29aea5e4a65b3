import Growth.Proofs.Code.Reads
import Growth.Proofs.Code.StatementResult

/-! The grammar of target code, over kinds of tokens, with the trees that it builds. The levels of
expressions make it unambiguous. -/

namespace Growth.Code

/-- What the grammar derives. An expression of the loosest level may be a tuple without parentheses.
Items and entries have commas between them, and there may be one after the last. A statement is what
a block consists of: one with a body, or a line of those without. -/
inductive Form where
  | expression (level : Precedence)
  | items | entries | compared
  | simple | line | suite | parameters | branch | statement | block | program

/-- The trees that are built for a form. A branch is what stands after its keyword. -/
@[reducible] def Form.Tree : Form → Type
  | expression _ => Expression
  | items => List Expression
  | entries => List (Expression × Expression)
  | compared => List (Comparison × Expression)
  | simple | branch => Statement
  | line | suite | statement | block => List Statement
  | parameters => List String
  | program => Module

/-- An opening bracket, what stands in it, and the closing one. -/
def Bracket.around (b : Bracket) (ks : List Kind) : List Kind :=
  .mark (.opening b) :: (ks ++ [.mark (.closing b)])

/-- The kinds of tokens of each form, and the tree that they are. -/
inductive Derives : (f : Form) → List Kind → f.Tree → Prop where
  -- atoms
  | integer (l : String) : Derives (.expression .primary) [.integer l] (.integer l)
  | float (v : Binary64) : Derives (.expression .primary) [.float v] (.float v)
  | strings {ss : List String} : ss ≠ [] →
    Derives (.expression .primary) (ss.map .string) (.string (String.join ss))
  | name (n : String) : Derives (.expression .primary) [.identifier n] (.name n)
  | boolean (b : Bool) :
    Derives (.expression .primary) [.keyword (if b then .trueKw else .falseKw)] (.boolean b)
  | noneLiteral : Derives (.expression .primary) [.keyword .noneKw] Expression.none
  | parentheses {ks : List Kind} {x : Expression} : Derives (.expression .tuple) ks x →
    Derives (.expression .primary) (Bracket.round.around ks) x
  | emptyTuple : Derives (.expression .primary) (Bracket.round.around []) (.tuple [])
  | list {ks : List Kind} {xs : List Expression} : Derives .items ks xs →
    Derives (.expression .primary) (Bracket.square.around ks) (.list xs)
  | set {ks : List Kind} {xs : List Expression} : Derives .items ks xs → xs ≠ [] →
    Derives (.expression .primary) (Bracket.curly.around ks) (.set xs)
  | dict {ks : List Kind} {es : List (Expression × Expression)} : Derives .entries ks es →
    Derives (.expression .primary) (Bracket.curly.around ks) (.dict es)
  -- levels of expressions, from the tightest to the loosest
  | call {ks ks' : List Kind} {x : Expression} {xs : List Expression} :
    Derives (.expression .primary) ks x → Derives .items ks' xs →
      Derives (.expression .primary) (ks ++ Bracket.round.around ks') (.call x xs)
  | item {ks ks' : List Kind} {x i : Expression} :
    Derives (.expression .primary) ks x → Derives (.expression .tuple) ks' i →
      Derives (.expression .primary) (ks ++ Bracket.square.around ks') (.item x i)
  | field {ks : List Kind} {x : Expression} (n : String) : Derives (.expression .primary) ks x →
    Derives (.expression .primary) (ks ++ [.mark .dot, .identifier n]) (.field x n)
  | power {ks ks' : List Kind} {x y : Expression} :
    Derives (.expression .primary) ks x → Derives (.expression .sign) ks' y →
      Derives (.expression .power) (ks ++ .mark (.operator .power) :: ks') (.binary x .power y)
  | minus {ks : List Kind} {x : Expression} : Derives (.expression .sign) ks x →
    Derives (.expression .sign) (.mark (.operator .minus) :: ks) (.unary .minus x)
  | plus {ks : List Kind} {x : Expression} : Derives (.expression .sign) ks x →
    Derives (.expression .sign) (.mark (.operator .plus) :: ks) (.unary .plus x)
  | product {ks ks' : List Kind} {x y : Expression} {op : Operator} :
    op.isMultiplicative = true → Derives (.expression .product) ks x →
      Derives (.expression .sign) ks' y →
        Derives (.expression .product) (ks ++ .mark (.operator op) :: ks') (.binary x op y)
  | sum {ks ks' : List Kind} {x y : Expression} {op : Operator} :
    op.isAdditive = true → Derives (.expression .sum) ks x → Derives (.expression .product) ks' y →
      Derives (.expression .sum) (ks ++ .mark (.operator op) :: ks') (.binary x op y)
  | comparison {ks ks' : List Kind} {x : Expression} {xs : List (Comparison × Expression)} :
    Derives (.expression .sum) ks x → Derives .compared ks' xs → xs ≠ [] →
      Derives (.expression .comparison) (ks ++ ks') (.compare x xs)
  | not {ks : List Kind} {x : Expression} : Derives (.expression .not) ks x →
    Derives (.expression .not) (.keyword .notKw :: ks) (.unary .not x)
  | and {ks ks' : List Kind} {x y : Expression} :
    Derives (.expression .and) ks x → Derives (.expression .not) ks' y →
      Derives (.expression .and) (ks ++ .keyword .andKw :: ks') (.joined x .and y)
  | or {ks ks' : List Kind} {x y : Expression} :
    Derives (.expression .or) ks x → Derives (.expression .and) ks' y →
      Derives (.expression .or) (ks ++ .keyword .orKw :: ks') (.joined x .or y)
  | tuple {ks ks' : List Kind} {x : Expression} {xs : List Expression} :
    Derives (.expression .or) ks x → Derives .items ks' xs →
      Derives (.expression .tuple) (ks ++ .mark .comma :: ks') (.tuple (x :: xs))
  | looser {ks : List Kind} {x : Expression} {level level' : Precedence} :
    level'.rank ≤ level.rank → Derives (.expression level) ks x → Derives (.expression level') ks x
  -- parts of expressions
  | noItems : Derives .items [] []
  | oneItem {ks : List Kind} {x : Expression} :
    Derives (.expression .or) ks x → Derives .items ks [x]
  | moreItems {ks ks' : List Kind} {x : Expression} {xs : List Expression} :
    Derives (.expression .or) ks x → Derives .items ks' xs →
      Derives .items (ks ++ .mark .comma :: ks') (x :: xs)
  | noEntries : Derives .entries [] []
  | oneEntry {ks ks' : List Kind} {x y : Expression} :
    Derives (.expression .or) ks x → Derives (.expression .or) ks' y →
      Derives .entries (ks ++ .mark .colon :: ks') [(x, y)]
  | moreEntries {ks ks' ks'' : List Kind} {x y : Expression} {es : List (Expression × Expression)} :
    Derives (.expression .or) ks x → Derives (.expression .or) ks' y → Derives .entries ks'' es →
      Derives .entries (ks ++ .mark .colon :: (ks' ++ .mark .comma :: ks'')) ((x, y) :: es)
  | noneCompared : Derives .compared [] []
  | moreCompared {ks ks' : List Kind} {x : Expression} {xs : List (Comparison × Expression)}
      (op : Comparison) : Derives (.expression .sum) ks x → Derives .compared ks' xs →
    Derives .compared (op.kinds ++ (ks ++ ks')) ((op, x) :: xs)
  -- statements without bodies
  | pass : Derives .simple [.keyword .passKw] .pass
  | breakLoop : Derives .simple [.keyword .breakKw] .breakLoop
  | continueLoop : Derives .simple [.keyword .continueKw] .continueLoop
  | noResult : Derives .simple [.keyword .returnKw] (.result none)
  | result {ks : List Kind} {x : Expression} : Derives (.expression .tuple) ks x →
    Derives .simple (.keyword .returnKw :: ks) (.result (some x))
  | value {ks : List Kind} {x : Expression} : Derives (.expression .tuple) ks x →
    Derives .simple ks (.expression x)
  | assign {ks ks' : List Kind} {x y : Expression} {t : Target} :
    Derives (.expression .tuple) ks x → x.target? = some t → Derives (.expression .tuple) ks' y →
      Derives .simple (ks ++ .mark .equal :: ks') (.assign t y)
  | update {ks ks' : List Kind} {x y : Expression} {t : Target} (op : Operator) :
    Derives (.expression .tuple) ks x → x.target? = some t → Derives (.expression .tuple) ks' y →
      Derives .simple (ks ++ .mark (.augmented op) :: ks') (.update t op y)
  | lastSimple {ks : List Kind} {s : Statement} : Derives .simple ks s →
    Derives .line (ks ++ [.newline]) [s]
  | lastWithSemicolon {ks : List Kind} {s : Statement} : Derives .simple ks s →
    Derives .line (ks ++ [.mark .semicolon, .newline]) [s]
  | moreSimple {ks ks' : List Kind} {s : Statement} {ss : List Statement} :
    Derives .simple ks s → Derives .line ks' ss →
      Derives .line (ks ++ .mark .semicolon :: ks') (s :: ss)
  -- statements with bodies
  | lineSuite {ks : List Kind} {ss : List Statement} : Derives .line ks ss → Derives .suite ks ss
  | blockSuite {ks : List Kind} {ss : List Statement} : Derives .block ks ss →
    Derives .suite (.newline :: .indent :: (ks ++ [.dedent])) ss
  | noParameters : Derives .parameters [] []
  | oneParameter (n : String) : Derives .parameters [.identifier n] [n]
  | moreParameters {ks : List Kind} {ps : List String} (n : String) : Derives .parameters ks ps →
    Derives .parameters (.identifier n :: .mark .comma :: ks) (n :: ps)
  | function {ks ks' : List Kind} {ps : List String} {b : List Statement} (n : String) :
    Derives .parameters ks ps → Derives .suite ks' b →
      Derives .statement (.keyword .defKw :: .identifier n ::
        (Bracket.round.around ks ++ .mark .colon :: ks')) [.function n ps b]
  | branch {ks : List Kind} {s : Statement} : Derives .branch ks s →
    Derives .statement (.keyword .ifKw :: ks) [s]
  | whileLoop {ks ks' : List Kind} {x : Expression} {b : List Statement} :
    Derives (.expression .or) ks x → Derives .suite ks' b →
      Derives .statement (.keyword .whileKw :: (ks ++ .mark .colon :: ks')) [.whileLoop x b]
  | forLoop {ks ks' : List Kind} {x : Expression} {b : List Statement} (n : String) :
    Derives (.expression .tuple) ks x → Derives .suite ks' b →
      Derives .statement
        (.keyword .forKw :: .identifier n :: .keyword .inKw :: (ks ++ .mark .colon :: ks'))
        [.forLoop n x b]
  | lineStatement {ks : List Kind} {ss : List Statement} : Derives .line ks ss →
    Derives .statement ks ss
  | plainBranch {ks ks' : List Kind} {x : Expression} {b : List Statement} :
    Derives (.expression .or) ks x → Derives .suite ks' b →
      Derives .branch (ks ++ .mark .colon :: ks') (.branch x b [])
  | chain {ks ks' ks'' : List Kind} {x : Expression} {b : List Statement} {s : Statement} :
    Derives (.expression .or) ks x → Derives .suite ks' b → Derives .branch ks'' s →
      Derives .branch (ks ++ .mark .colon :: (ks' ++ .keyword .elifKw :: ks'')) (.branch x b [s])
  | choice {ks ks' ks'' : List Kind} {x : Expression} {b b' : List Statement} :
    Derives (.expression .or) ks x → Derives .suite ks' b → Derives .suite ks'' b' →
      Derives .branch
        (ks ++ .mark .colon :: (ks' ++ .keyword .elseKw :: .mark .colon :: ks'')) (.branch x b b')
  -- blocks and programs
  | noStatements : Derives .block [] []
  | emptyLine {ks : List Kind} {ss : List Statement} : Derives .block ks ss →
    Derives .block (.newline :: ks) ss
  | moreStatements {ks ks' : List Kind} {ss ss' : List Statement} :
    Derives .statement ks ss → Derives .block ks' ss' → Derives .block (ks ++ ks') (ss ++ ss')
  | program {ks : List Kind} {ss : List Statement} : Derives .block ks ss →
    Derives .program (ks ++ [.endOfFile]) ⟨ss⟩

end Growth.Code
