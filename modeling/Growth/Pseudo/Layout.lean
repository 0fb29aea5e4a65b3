import Growth.Text.Blank

/-! From marked lines to indented lines. The lines `INDENT` and `UNINDENT` say where blocks begin
and end; the others are indented by one tab for each block around them. -/

namespace Growth.Pseudo.Layout

/-- Runs of spaces become one space. -/
def squeezed : List Char → List Char
  | [] => []
  | c :: cs => if c = ' ' && cs.head? = some ' ' then squeezed cs else c :: squeezed cs

/-- Lines inside `depth` blocks. An end without a block is passed over. -/
def laid (depth : Nat) : List (List Char) → List Char
  | [] => []
  | line :: rest =>
    if line = "INDENT".toList then laid (depth + 1) rest
    else if line = "UNINDENT".toList then laid (depth - 1) rest
    else List.replicate depth '\t' ++ squeezed line ++ '\n' :: laid depth rest

/-- The text with its marks resolved, without blanks at its ends. -/
def resolved (text : String) : String :=
  String.ofList (Text.trim (laid 0 (Text.lines text.toList)))

end Growth.Pseudo.Layout
