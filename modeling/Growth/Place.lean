import Growth.Position

/-! Places in a text by the number of bytes before them, and by line and column. -/

namespace Growth

/-- A place in a text. The bytes before it are those of the text in UTF-8. -/
structure Place where
  offset : Nat
  position : Position
deriving DecidableEq, Repr

namespace Place

/-- The place of the first character. -/
def start : Place := ⟨0, .start⟩

/-- The place after the character `c` at `p`. -/
def step (p : Place) (c : Char) : Place :=
  ⟨p.offset + c.utf8Size, p.position.step c⟩

/-- The place after the text `cs` that begins at `p`. -/
def after (p : Place) (cs : List Char) : Place :=
  cs.foldl step p

end Place

end Growth
