import Growth.Code.Printing

/-! Programs that record the values of their variables as they run. After each plain assignment they
call a routine that leaves a mark when a variable receives a value for the second time. -/

namespace Growth.Code.Recording

/-- The routine that records. -/
def routine : String := "_algoscope_record"

/-- The file that is written when a value comes back. -/
def flag : String := "repeat.flag"

/-- The definition of the routine. -/
def definition : String :=
  "_algoscope_history = \x7b\x7d\n" ++
  "\n" ++
  "\n" ++
  "def _algoscope_record(name, value):\n" ++
  "    seen = _algoscope_history.setdefault(name, [])\n" ++
  "    for earlier in seen:\n" ++
  "        if earlier == value:\n" ++
  "            handle = open('repeat.flag', 'w')\n" ++
  "            handle.write('1')\n" ++
  "            handle.close()\n" ++
  "            return\n" ++
  "    seen.append(value)\n" ++
  "\n" ++
  "\n"

/-- The call that records the value of a variable. -/
def call (name : String) : Statement :=
  .expression (.call (.name routine) [.string name, .name name])

/-- Whether a statement is a call of the routine. -/
def isCall : Statement → Bool
  | .expression x => x.callee? == some routine
  | _ => false

mutual

/-- A statement with its blocks recorded. -/
def statement : Statement → Statement
  | .function name parameters body => .function name parameters (block (body.any isCall) body)
  | .whileLoop condition body => .whileLoop condition (block (body.any isCall) body)
  | .forLoop counter iterable body => .forLoop counter iterable (block (body.any isCall) body)
  | .branch condition body other =>
    .branch condition (block (body.any isCall) body) (block (other.any isCall) other)
  | s => s

/-- A block with calls after its plain assignments, unless it `has` such calls already. -/
def block (has : Bool) : List Statement → List Statement
  | [] => []
  | s :: ss =>
    statement s :: ((if has then [] else s.assigned?.toList.map call) ++ block has ss)

end

/-- A program that records. -/
def recorded (m : Module) : Module :=
  ⟨block (m.body.any isCall) m.body⟩

/-- A program that records, as text that can be run. -/
def program (m : Module) : String :=
  definition ++ (recorded m).text

end Growth.Code.Recording
