import Growth.CommandLine
import Growth.Proofs.Text.Lines

/-! Settings come from a document, from the environment and from options, and what comes later
counts. They are checked twice: those that the options are added to have to be usable by
themselves. -/

namespace Growth

namespace Settings

/-- The environment gives no time, or one that can be read. -/
def Readable (environment : String → Option String) : Prop :=
  ∀ raw, environment timeoutVariable = some raw →
    ∃ n, Text.readWhole 10 longest (Text.trim raw.toList) = .ok n

/-! ### The check -/

variable {s s' : Settings} {environment : String → Option String}

end Settings

namespace CommandLine

/-- The settings that options begin with, before the environment. -/
inductive Options.Document (o : Options) (s : Surroundings) : Settings → Prop
  | standard (h : o.settingsPath = .none) : o.Document s .standard
  | read {path text : String} {settings : Settings} (hpath : o.settingsPath = some path)
      (htext : s.files path = some text) (hread : Settings.ofDocument? text = some settings) :
      o.Document s settings

namespace Options

variable {o : Options} {s : Surroundings} {document c : Settings}

end Options

end CommandLine

end Growth
