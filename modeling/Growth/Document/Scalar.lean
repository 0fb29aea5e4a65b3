import Growth.Document.Sign

/-! Scalars, the texts of a document. A scalar may go on over several lines, which are then folded: a
single line end becomes a space, and of several line ends the first falls away. -/

namespace Growth.Document

/-- How a scalar is written. -/
inductive Style where
  | plain
  /-- Between quotes. -/
  | quoted
  /-- In lines that are kept as they are. -/
  | literal
  /-- In lines that are folded. -/
  | folded
deriving DecidableEq, Repr

/-- A scalar's text, how it is written, and the tag that tells what it is, if there is one. -/
structure Scalar where
  text : List Char
  style : Style
  tag : Option (List Char)
deriving DecidableEq, Repr

/-- The scalar that is left out. -/
def Scalar.absent : Scalar :=
  ⟨[], .plain, none⟩

/-- The tag of a kind of scalar that needs no directive. -/
def standardTag (name : String) : List Char :=
  "tag:yaml.org,2002:".toList ++ name.toList

/-- Whether a scalar may be something else than text: a plain one may, and one in literal lines if its
tag is that of the kind `name`. -/
def Scalar.mayBe (name : String) (s : Scalar) : Bool :=
  s.style == .plain || s.style == .literal && s.tag == some (standardTag name)

/-- What stands between two characters of a scalar: blanks of one line, or line ends. The first line
end is missing where a backslash takes it away. -/
inductive Gap where
  | blanks (cs : List Char)
  | lines (first : Option Char) (further : List Char)
deriving DecidableEq, Repr

namespace Gap

/-- No gap. -/
def empty : Gap :=
  .blanks []

/-- Whether the gap has a line end. -/
def isLines : Gap → Bool
  | blanks _ => false
  | lines _ _ => true

/-- The gap with one more blank or line end. Blanks around line ends do not count. -/
def add : Gap → Char → Gap
  | blanks cs, c => if isBreak c then .lines (some c) [] else .blanks (cs ++ [c])
  | lines first further, c => if isBreak c then .lines first (further ++ [c]) else .lines first further

/-- What the gap comes to in the text. Only a line feed is folded. -/
def text : Gap → List Char
  | blanks cs => cs
  | lines (some '\n') [] => [' ']
  | lines (some '\n') further => further
  | lines first further => first.toList ++ further

end Gap

end Growth.Document
