import Growth.Document.Scalar

/-! Plain words, which stand without quotes. They end where something else begins. -/

namespace Growth.Document

/-- Signs with which no plain word begins. -/
def isSign (c : Char) : Bool :=
  isBraceSign c || "-?:#&*!|>'\"%@".contains c || c.toNat == 0x60

/-- Whether a plain word can begin with `c` before `cs`; between braces if `braced`. -/
def startsPlain (braced : Bool) (c : Char) (cs : List Char) : Bool :=
  if c == '-' then !startsGap cs
  else if c == '?' || c == ':' then !braced && !startsGap cs
  else !(isBlank c || isBreak c || isSign c)

/-- A plain word: its text, whether a line ended after it, and what follows. -/
structure PlainWord where
  text : List Char
  lineEnded : Bool
  rest : List Char
deriving DecidableEq, Repr

/-- Whether a plain word ends after the gap `gap`, which comes to `column` in its line: before a
comment, before a mark of the document, and in a line that is indented too little. -/
def endsAfter (braced : Bool) (least : Nat) (gap : Gap) (column : Nat) (cs : List Char) : Bool :=
  gap != .empty && (cs.head? == some '#' || column == 0 && startsMark cs ||
    !braced && gap.isLines && column < least)

/-- The rest of a plain word from `column` on, after the gap `gap`; between braces if `braced`. Outside
of braces its further lines are indented by `least` or more, and not with tabs. -/
def plainWord (braced : Bool) (least : Nat) (gap : Gap) (column : Nat) :
    List Char → Option PlainWord
  | [] => some ⟨[], gap.isLines, []⟩
  | c :: cs =>
    if isBreak c then plainWord braced least (gap.add c) 0 cs
    else if isBlank c then
      if c == '\t' && gap.isLines && column < least then none
      else plainWord braced least (gap.add c) (column + 1) cs
    else if endsAfter braced least gap column (c :: cs) then some ⟨[], gap.isLines, c :: cs⟩
    else if braced && c == ':' && cs.head?.any (fun d => isBraceSign d || d == '?') then none
    else if c == ':' && startsGap cs || braced && isBraceSign c then
      some ⟨[], gap.isLines, c :: cs⟩
    else
      (plainWord braced least .empty (column + 1) cs).map fun w =>
        { w with text := gap.text ++ c :: w.text }

end Growth.Document
