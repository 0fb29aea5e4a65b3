import Growth.Analysis
import Growth.Report.Scalar

/-! Analyses as text: the code with its features line by line, or all of it as a mapping. -/

namespace Growth.Report

open Pseudo

/-- The features and the order of growth by name. -/
def fields (p : Profile) : List (String × Nat) :=
  ["RecCount", "LoopNDepend", "LoopNested", "LoopType", "ProgTerminate", "UsingNonScalar",
    "RepeatValues", "ReuseValues", "Complexity"].zip p.toList

/-- A name and a number in a line. -/
def fieldLine (field : String × Nat) : String :=
  let (name, value) := field
  s!"{name}: {value}\n"

/-- The code, then the features and the order of growth. -/
def plain (a : Analysis) : String :=
  a.code ++ "\n\n" ++ String.join ((fields a.profile).map fieldLine) ++
    s!"Label: {a.profile.order.label}\n"

/-- A diagnostic as an item of a list. -/
def diagnosticItem (d : Diagnostic) : String :=
  let kind := if d.problem.isLexical then "lexical" else "syntax"
  s!"- kind: {kind}\n  message: {valueLine d.problem.message}  span:\n" ++
    s!"    line: {d.position.line}\n    column: {d.position.column}\n"

/-- The whole analysis as a mapping. -/
def mapping (a : Analysis) : String :=
  let diagnostics :=
    if a.diagnostics.isEmpty then " []\n"
    else "\n" ++ String.join (a.diagnostics.map diagnosticItem)
  let features := String.join ((fields a.profile).map fun field => "  " ++ fieldLine field)
  s!"code: {valueLine a.code}diagnostics:{diagnostics}features:\n{features}" ++
    s!"complexity: {valueLine a.profile.order.label}"

end Growth.Report
