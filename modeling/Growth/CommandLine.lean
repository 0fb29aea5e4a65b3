import Growth.Report.Basic
import Growth.Settings.Basic

/-! The command line: what its arguments ask for, and what is answered. Everything but the runs of
programs is settled by the arguments, the input, the files and the environment. -/

namespace Growth.CommandLine

/-- What the arguments ask for. -/
structure Options where
  /-- Only give the code, and run nothing. -/
  codeOnly : Bool
  /-- The input is target code. -/
  target : Bool
  /-- Answer with a mapping. -/
  mapping : Bool
  settingsPath : Option String
  interpreter : Option String
  timeout : Option Nat
  inputPath : Option String
deriving DecidableEq, Repr

/-- What was asked for before the first argument. -/
def Options.none : Options := ⟨false, false, false, .none, .none, .none, .none⟩

/-- Why there is no answer. -/
inductive Fault where
  | missingPath (option : String)
  | missingInterpreter (option : String)
  | missingValue (option : String)
  | badTimeout (raw : String) (why : Text.NumberError)
  | unknownOption (argument : String)
  | secondInput
  | incompatible
  | unreadableInput (path : String)
  /-- What is on standard input is no text. -/
  | noText
  | settings (e : SettingsError)
  | refused (r : Refusal)
  /-- Not all of the text became code. -/
  | notRendered

namespace Fault

/-- The fault in words. -/
def message : Fault → String
  | missingPath option => s!"Missing path after {option}"
  | missingInterpreter option => s!"Missing interpreter after {option}"
  | missingValue option => s!"Missing value after {option}"
  | badTimeout raw _ => s!"Invalid timeout '{raw}'"
  | unknownOption argument => s!"Unknown option '{argument}'"
  | secondInput => "Only one input file is supported"
  | incompatible => "--translate-only and --target cannot be combined"
  | unreadableInput path => s!"Reading {path}"
  | noText => "Reading stdin"
  | settings e => e.message
  | refused r => r.message
  | notRendered => "Translation failed"

/-- What lies behind the fault, in words. -/
def cause? : Fault → Option String
  | badTimeout _ why => some why.message
  | unreadableInput _ | settings (.unreadable _) => some "No such file or directory (os error 2)"
  | noText => some "stream did not contain valid UTF-8"
  | _ => none

/-- The fault as it is reported. -/
def report (f : Fault) : String :=
  let cause := match f.cause? with
    | some cause => s!"\n\nCaused by:\n    {cause}"
    | none => ""
  s!"Error: {f.message}{cause}\n"

end Fault

/-! ### Arguments -/

/-- What an option sets. -/
inductive Setting where
  | codeOnly | target | mapping | settingsPath | interpreter | timeout
deriving DecidableEq, Repr

/-- The options. -/
def Setting.table : List (String × Setting) :=
  [("--translate-only", codeOnly), ("-t", codeOnly), ("--target", target),
    ("--yaml", mapping), ("--config", settingsPath), ("-c", settingsPath),
    ("--python", interpreter), ("--timeout-ms", timeout)]

/-- What arguments ask for besides `o`. The last of several values for an option counts. -/
def Options.add (o : Options) : List String → Except Fault Options
  | [] => .ok o
  | argument :: rest =>
    match Setting.table.lookup argument with
    | some .codeOnly => { o with codeOnly := true }.add rest
    | some .target => { o with target := true }.add rest
    | some .mapping => { o with mapping := true }.add rest
    | some .settingsPath =>
      match rest with
      | path :: rest => { o with settingsPath := some path }.add rest
      | [] => .error (.missingPath argument)
    | some .interpreter =>
      match rest with
      | name :: rest => { o with interpreter := some name }.add rest
      | [] => .error (.missingInterpreter argument)
    | some .timeout =>
      match rest with
      | raw :: rest =>
        match Text.readWhole 10 Settings.longest raw.toList with
        | .ok n => { o with timeout := some n }.add rest
        | .error why => .error (.badTimeout raw why)
      | [] => .error (.missingValue argument)
    | .none =>
      if argument.toList.head? = some '-' && argument != "-" then .error (.unknownOption argument)
      else if o.inputPath.isSome then .error .secondInput
      else { o with inputPath := some argument }.add rest

/-- What arguments ask for. -/
def Options.ofArguments (arguments : List String) : Except Fault Options :=
  match Options.none.add arguments with
  | .ok o => if o.codeOnly && o.target then .error .incompatible else .ok o
  | .error f => .error f

/-! ### Surroundings -/

/-- Where a command is given. -/
structure Surroundings where
  /-- The values of variables. -/
  environment : String → Option String
  /-- The contents of files. -/
  files : String → Option String
  /-- The text on standard input, if it is one. -/
  input : Option String

/-- Whether the text is on standard input. -/
def Options.readsInput (o : Options) : Bool :=
  o.inputPath.all (· == "-")

/-- The files that the options name. -/
def Options.paths (o : Options) : List String :=
  o.settingsPath.toList ++ o.inputPath.toList.filter (· != "-")

/-- The text on standard input. -/
def Surroundings.typed (s : Surroundings) : Except Fault String :=
  match s.input with
  | some text => .ok text
  | .none => .error .noText

/-- The text that the options name. -/
def Options.source (o : Options) (s : Surroundings) : Except Fault String :=
  match o.inputPath with
  | .none => s.typed
  | some "-" => s.typed
  | some path =>
    match s.files path with
    | some text => .ok text
    | .none => .error (.unreadableInput path)

/-- The settings before the options, from the document that they name and from the environment. They
have to be usable by themselves. -/
def Options.base (o : Options) (s : Surroundings) : Except SettingsError Settings :=
  let document : Except SettingsError Settings :=
    match o.settingsPath with
    | .none => .ok .standard
    | some path =>
      match s.files path with
      | .none => .error (.unreadable path)
      | some text =>
        match Settings.ofDocument? text with
        | some settings => .ok settings
        | .none => .error (.malformed path)
  document.bind fun settings => (settings.withEnvironment s.environment).bind Settings.validated

/-- The settings with the options. -/
def Options.settings (o : Options) (s : Surroundings) : Except SettingsError Settings :=
  (o.base s).bind fun base =>
    Settings.validated
      { base with
        interpreter := o.interpreter.getD base.interpreter
        timeout := o.timeout.getD base.timeout }

/-! ### Answers -/

/-- What is answered to a command. -/
structure Answer where
  exit : Nat
  output : String
  errors : String
deriving DecidableEq, Repr

/-- The answer to a fault, after `warnings`. -/
def Answer.ofFault (warnings : String) (f : Fault) : Answer :=
  ⟨1, "", warnings ++ f.report⟩

/-- A command that can be carried out. -/
structure Job where
  options : Options
  source : String
  settings : Settings

/-- The command that arguments give. The arguments are looked at before the input, and the input before
the settings. -/
def prepare (s : Surroundings) (arguments : List String) : Except Fault Job :=
  match Options.ofArguments arguments with
  | .error f => .error f
  | .ok o =>
    match o.source s, o.settings s with
    | .error f, _ => .error f
    | .ok _, .error e => .error (.settings e)
    | .ok source, .ok settings => .ok ⟨o, source, settings⟩

/-- Diagnostics line by line, each after `label`. -/
def diagnosticLines (label : String) (diagnostics : List Pseudo.Diagnostic) : String :=
  String.join (diagnostics.map fun d => label ++ d.text ++ "\n")

/-- The answer that a rendition gives. -/
def Answer.ofRendition (t : Pseudo.Rendition) : Answer :=
  match t.code, t.diagnostics with
  | some code, [] => ⟨0, code ++ "\n", ""⟩
  | _, diagnostics => .ofFault (diagnosticLines "" diagnostics) .notRendered

/-- The answer that an analysis gives. -/
def Answer.ofAnalysis (mapping : Bool) (outcome : Except Refusal Analysis) : Answer :=
  match outcome with
  | .error r => .ofFault "" (.refused r)
  | .ok a =>
    ⟨0, if mapping then Report.mapping a else Report.plain a,
      diagnosticLines "warning: " a.diagnostics⟩

/-- Carries out a command. -/
def Job.answer (job : Job) : Trial Answer :=
  if job.options.codeOnly then .done (.ofRendition (.ofText job.source))
  else
    let analysis :=
      if job.options.target then Analysis.ofCode job.source else Analysis.ofText job.source
    analysis.map (.ofAnalysis job.options.mapping)

/-- The answer to arguments, where `reply` runs programs under settings. -/
def answer (reply : Settings → Request → Reply) (s : Surroundings) (arguments : List String) :
    Answer :=
  match prepare s arguments with
  | .error f => .ofFault "" f
  | .ok job => job.answer.against (reply job.settings)

end Growth.CommandLine
