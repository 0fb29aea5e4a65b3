import Growth.Pseudo.Statement
import Growth.Pseudo.Token

/-! Outcomes of reading tokens. Whether or not reading comes to an end, what remains is the rest of
the tokens it began with, so a reader that takes a token before it calls itself terminates. -/

namespace Growth.Pseudo

/-- What reading from `ts` gives: a value and the tokens after it, or the tokens at the first of
which it stopped. -/
inductive Reading (α : Type) (ts : List Token) where
  | done (value : α) (rest : List Token) (suffix : rest <:+ ts)
  | stuck (rest : List Token) (suffix : rest <:+ ts)

namespace Reading

variable {α β : Type} {ts : List Token}

/-- The same outcome, seen from further left. -/
def widen {rest : List Token} (h : rest <:+ ts) : Reading α rest → Reading α ts
  | done value rest' h' => .done value rest' (h'.trans h)
  | stuck rest' h' => .stuck rest' (h'.trans h)

/-- The outcome after the token `t` has been taken. -/
def past (t : Token) (r : Reading α ts) : Reading α (t :: ts) :=
  r.widen (List.suffix_cons t ts)

/-- Goes on with what remains. -/
def bind (r : Reading α ts) (next : α → (rest : List Token) → rest <:+ ts → Reading β rest) :
    Reading β ts :=
  match r with
  | done value rest h => (next value rest h).widen h
  | stuck rest h => .stuck rest h

/-- Changes the value. -/
def map (f : α → β) : Reading α ts → Reading β ts
  | done value rest h => .done (f value) rest h
  | stuck rest h => .stuck rest h

end Reading

/-- Reads one token of the given kind. -/
def expect (kind : Kind) : (ts : List Token) → Reading Token ts
  | [] => .stuck [] (List.suffix_refl _)
  | t :: rest =>
    if t.kind = kind then .done t rest (List.suffix_cons t rest)
    else .stuck (t :: rest) (List.suffix_refl _)

/-- The outcome of reading in which errors were met and stepped over. Each of them is given by the
tokens left at it. -/
structure Attempt (α : Type) (ts : List Token) where
  stops : List (List Token)
  reading : Reading α ts

namespace Attempt

variable {α β : Type} {ts : List Token}

/-- An outcome without errors on the way. -/
def ofReading (r : Reading α ts) : Attempt α ts :=
  ⟨[], r⟩

/-- Goes on with what remains. -/
def bind (a : Attempt α ts) (next : α → (rest : List Token) → rest <:+ ts → Attempt β rest) :
    Attempt β ts :=
  match a.reading with
  | .done value rest h =>
    let b := next value rest h
    ⟨a.stops ++ b.stops, b.reading.widen h⟩
  | .stuck rest h => ⟨a.stops, .stuck rest h⟩

/-- Changes the value. -/
def map (f : α → β) (a : Attempt α ts) : Attempt β ts :=
  ⟨a.stops, a.reading.map f⟩

end Attempt

end Growth.Pseudo
