/-! Places in a text: lines count from one, columns count characters from zero. -/

namespace Growth

/-- A line and a column. -/
structure Position where
  line : Nat
  column : Nat
deriving DecidableEq, Repr

namespace Position

/-- The place of the first character. -/
def start : Position := ⟨1, 0⟩

/-- The place after the character `c` at `p`. -/
def step (p : Position) (c : Char) : Position :=
  if c = '\n' then ⟨p.line + 1, 0⟩ else ⟨p.line, p.column + 1⟩

/-- The place after the text `cs` that begins at `p`. -/
def after (p : Position) (cs : List Char) : Position :=
  cs.foldl step p

/-- A place as it is named in messages. -/
def text (p : Position) : String :=
  s!"line {p.line}, column {p.column}"

end Position

end Growth
