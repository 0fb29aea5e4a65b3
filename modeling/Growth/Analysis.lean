import Growth.Code.ReadStatement
import Growth.Profile
import Growth.Pseudo.Rendition

/-! The whole way from a text to the order of growth of what it describes. -/

namespace Growth

open Code Pseudo

/-- What an analysis gives. -/
structure Analysis where
  code : String
  /-- What was passed over in the text. -/
  diagnostics : List Diagnostic
  profile : Profile

/-- Why there is no analysis. -/
inductive Refusal where
  /-- The pseudocode has errors, or nothing in it is a statement. -/
  | notRendered (diagnostics : List Diagnostic)
  /-- The code is no program. -/
  | build (e : BuildError)

namespace Refusal

/-- The diagnostics in one line. -/
def describe (diagnostics : List Diagnostic) : String :=
  if diagnostics.isEmpty then "no statements"
  else "; ".intercalate (diagnostics.map Diagnostic.text)

/-- The refusal in words. -/
def message : Refusal → String
  | notRendered diagnostics => "Translation failed: " ++ describe diagnostics
  | build e => e.message

end Refusal

namespace Analysis

/-- Analyses target code. -/
def ofCode (code : String) : Trial (Except Refusal Analysis) :=
  match Module.ofText code with
  | .error e => .done (.error (.build e))
  | .ok m => (Extractor.ofModule m).findProfile.map fun (profile, _) => .ok ⟨code, [], profile⟩

/-- Analyses pseudocode. Characters that begin no word are passed over; any other error refuses
it. -/
def ofText (source : String) : Trial (Except Refusal Analysis) :=
  let t := Rendition.ofText source
  match t.code with
  | some code =>
    if t.diagnostics.all fun d => d.problem.isLexical then
      (ofCode code).map fun outcome =>
        outcome.map fun analysis => { analysis with diagnostics := t.diagnostics }
    else .done (.error (.notRendered t.diagnostics))
  | none => .done (.error (.notRendered t.diagnostics))

end Analysis

end Growth
