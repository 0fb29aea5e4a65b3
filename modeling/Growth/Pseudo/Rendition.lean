import Growth.Pseudo.Layout
import Growth.Pseudo.Line
import Growth.Pseudo.ReadStatement

/-! From pseudocode to target code. What can be read becomes code; all else is reported. -/

namespace Growth.Pseudo

/-- The code for a text, if any statement of it could be read, and what is wrong with the text. -/
structure Rendition where
  code : Option String
  diagnostics : List Diagnostic
deriving DecidableEq, Repr

namespace Rendition

/-- All of the text became code. -/
def isClean (t : Rendition) : Bool :=
  t.code.isSome && t.diagnostics.isEmpty

/-- The diagnostic for reading `ts` that stopped when `rest` was left of it. At the end of the text
the place is that of its last token. -/
def stopped (ts rest : List Token) : Diagnostic :=
  match rest with
  | t :: _ => ⟨.unexpected t.lexeme, t.position⟩
  | [] => ⟨.unexpectedEnd, (ts.getLast?.map Token.position).getD ⟨0, 0⟩⟩

/-- What the tokens become; the blocks of the code are still marked. -/
def ofTokens (ts : List Token) : Rendition :=
  let (statements, stops) := readProgram ts
  let code := String.join ((Statement.linesOf statements).map Line.text)
  ⟨if statements.isEmpty then none else some code, stops.map (stopped ts)⟩

/-- What a text becomes. -/
def ofText (source : String) : Rendition :=
  let marked := ofTokens (tokens source)
  ⟨marked.code.map Layout.resolved, strays source ++ marked.diagnostics⟩

end Rendition

end Growth.Pseudo
