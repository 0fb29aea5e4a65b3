/-! Work that runs programs on its way. What a run will show is not known beforehand, so such work is
a tree: each request for a run goes on in one way for each reply. It can be played against any list
of replies, or against a rule that answers requests. -/

namespace Growth

/-- A request to run a program and to collect some of the files that it writes. -/
structure Request where
  program : String
  files : List String
deriving DecidableEq, Repr

/-- How a run ended. -/
inductive Ending where
  | completed
  | timedOut
  | fault (message : String)
deriving DecidableEq, Repr

/-- What a run showed: its end, and the requested files that were written. -/
structure Run where
  ending : Ending
  files : List (String × String)
deriving DecidableEq, Repr

/-- A run that completed and wrote nothing. -/
def Run.plain : Run := ⟨.completed, []⟩

/-- Why a run shows nothing. -/
inductive RunError where
  /-- A requested file cannot be read as text. -/
  | unreadable (file : String)
  /-- What was written as errors cannot be read. -/
  | noErrors
  /-- The interpreter cannot be started. -/
  | noInterpreter (name : String)
deriving DecidableEq, Repr

/-- The error in words. -/
def RunError.message : RunError → String
  | unreadable file => s!"sandbox io failed: read artifact {file}"
  | noErrors => "sandbox io failed: read error log"
  | noInterpreter name => s!"failed to spawn interpreter '{name}'"

/-- The answer to a request. -/
abbrev Reply := Except RunError Run

/-- Work that runs programs on its way to a value. -/
inductive Trial (α : Type) where
  | done (value : α)
  | run (request : Request) (next : Reply → Trial α)

namespace Trial

variable {α β : Type}

/-- Goes on with the value. -/
def bind (t : Trial α) (next : α → Trial β) : Trial β :=
  match t with
  | done value => next value
  | run request more => run request fun reply => (more reply).bind next

/-- Changes the value. -/
def map (f : α → β) (t : Trial α) : Trial β :=
  t.bind fun value => done (f value)

/-- What work comes to, the requests made and the replies left, when requests are answered by `replies`
in order. Where there are too few of them, runs complete and write nothing. -/
def play (replies : List Reply) (t : Trial α) : α × List Request × List Reply :=
  match t with
  | done value => (value, [], replies)
  | run request next =>
    let (value, requests, left) :=
      (next ((replies.head?).getD (.ok .plain))).play replies.tail
    (value, request :: requests, left)

/-- What work comes to when `reply` answers requests. -/
def against (reply : Request → Reply) (t : Trial α) : α :=
  match t with
  | done value => value
  | run request next => (next (reply request)).against reply

end Trial

end Growth
