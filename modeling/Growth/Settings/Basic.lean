import Growth.Document.Entry
import Growth.Text.Blank
import Growth.Text.WholeNumber

/-! The settings for runs of programs. They come from a document, from the environment and from the
command line; what comes later counts. -/

namespace Growth

/-- The settings for runs of programs. -/
structure Settings where
  /-- The interpreter that runs programs. -/
  interpreter : String
  /-- How long a run may take, in milliseconds. -/
  timeout : Nat
  /-- Whether the interpreter is kept apart from what is installed beside it. -/
  isolated : Bool
deriving DecidableEq, Repr

/-- Why settings cannot be used. -/
inductive SettingsError where
  | unreadable (path : String)
  | malformed (path : String)
  /-- The environment gives a timeout that is no whole number. -/
  | notWhole (raw : String)
  | noTime
  | noInterpreter
deriving DecidableEq, Repr

/-- The error in words. -/
def SettingsError.message : SettingsError → String
  | unreadable path => s!"failed to read config {path}"
  | malformed path => s!"failed to parse config {path}"
  | notWhole raw => s!"invalid config: ALGOSCOPE_TIMEOUT_MS must be an integer, got '{raw}'"
  | noTime => "invalid config: timeout_ms must be positive"
  | noInterpreter => "invalid config: python must not be empty"

namespace Settings

/-- The settings where nothing else is said. -/
def standard : Settings := ⟨"python3", 5000, true⟩

/-- The greatest number of milliseconds. -/
def longest : Nat := 2 ^ 64 - 1

/-! ### Documents -/

/-- Whether digits begin with a zero that they do not need; they are then no number. -/
def isPadded (digits : List Char) : Bool :=
  1 < digits.length && digits.head? == some '0' && digits.all Char.isDigit

/-- The number that is all of a scalar: in decimal digits, or in another base after its mark. -/
def number? (s : Document.Scalar) : Option Nat :=
  let unsigned := match s.text with
    | '+' :: cs => cs
    | cs => cs
  let based (base : Nat) (digits : List Char) : Option Nat :=
    if digits.head? == some '+' || digits.isEmpty then none
    else (Text.readDigits base longest 0 digits).toOption
  if !s.mayBe "int" then none
  else
    match unsigned with
    | '0' :: 'x' :: digits => based 16 digits
    | '0' :: 'o' :: digits => based 8 digits
    | '0' :: 'b' :: digits => based 2 digits
    | digits => if isPadded digits then none else based 10 digits

/-- The truth value that a scalar is. -/
def truth? (s : Document.Scalar) : Option Bool :=
  if !s.mayBe "bool" then none
  else if ["true", "True", "TRUE"].contains (String.ofList s.text) then some true
  else if ["false", "False", "FALSE"].contains (String.ofList s.text) then some false
  else none

/-- The settings with one entry of a document. -/
def withEntry? (s : Settings) (entry : Document.Entry) : Option Settings :=
  let (key, value) := entry
  match String.ofList key with
  | "python" => some { s with interpreter := String.ofList value.text }
  | "timeout_ms" => (number? value).map fun n => { s with timeout := n }
  | "isolated" => (truth? value).map fun b => { s with isolated := b }
  | _ => none

/-- The settings that a document gives, in which each name stands once at most. -/
def ofDocument? (document : String) : Option Settings :=
  (Document.entries? document.toList).bind fun entries =>
    if (entries.map Prod.fst).Nodup then entries.foldlM withEntry? standard else none

/-! ### Further sources -/

/-- The variable that names the interpreter. -/
def interpreterVariable : String := "ALGOSCOPE_PYTHON"

/-- The variable that gives the timeout. -/
def timeoutVariable : String := "ALGOSCOPE_TIMEOUT_MS"

/-- The variables that settings are taken from. -/
def variableNames : List String := [interpreterVariable, timeoutVariable]

/-- The settings with what the environment says. -/
def withEnvironment (s : Settings) (environment : String → Option String) :
    Except SettingsError Settings :=
  let s := match environment interpreterVariable with
    | some interpreter => { s with interpreter }
    | none => s
  match environment timeoutVariable with
  | none => .ok s
  | some raw =>
    match Text.readWhole 10 longest (Text.trim raw.toList) with
    | .ok timeout => .ok { s with timeout }
    | .error _ => .error (.notWhole raw)

/-- Refuses settings with which nothing could run. -/
def validated (s : Settings) : Except SettingsError Settings :=
  if s.timeout = 0 then .error .noTime
  else if (Text.trim s.interpreter.toList).isEmpty then .error .noInterpreter
  else .ok s

end Settings

end Growth
