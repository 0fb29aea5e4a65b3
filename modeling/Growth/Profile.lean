import Growth.Code.Recording
import Growth.Order
import Growth.Text.Blank
import Growth.Trial

/-! The features of a program together with its order of growth, found once and then kept. -/

namespace Growth

open Code

/-- Whether a run of the recording program gives a variable the same value twice. A run that fails
shows nothing. -/
def Trial.repeatedValue (m : Module) : Trial Nat :=
  .run ⟨Recording.program m, [Recording.flag]⟩ fun
    | .ok report =>
      .done (((report.files.lookup Recording.flag).any fun s => Text.trimmed s == "1").toNat)
    | .error _ => .done 0

/-- Whether a run of the program comes to no normal end. A run that cannot be made shows nothing. -/
def Trial.abnormalEnd (m : Module) : Trial Nat :=
  .run ⟨m.text, []⟩ fun
    | .ok report => .done ((report.ending != .completed).toNat)
    | .error _ => .done 0

/-- The features of a program, found with two runs. -/
def Trial.features (m : Module) : Trial Features :=
  (Trial.repeatedValue m).bind fun repeated =>
  (Trial.abnormalEnd m).map fun abnormal => .ofModule m abnormal repeated

/-- The features and the order of growth of a program. -/
structure Profile where
  features : Features
  order : Order
deriving DecidableEq, Repr

/-- The features and then the order, as numbers. -/
def Profile.toList (p : Profile) : List Nat :=
  p.features.toList ++ [p.order.rank]

/-- A program and what has been found out about it. -/
structure Extractor where
  program : Module
  features : Option Features
  order : Option Order

namespace Extractor

/-- Nothing is known yet. -/
def ofModule (m : Module) : Extractor := ⟨m, none, none⟩

/-- Finds the features, unless they are known. -/
def findFeatures (e : Extractor) : Trial (Features × Extractor) :=
  match e.features with
  | some f => .done (f, e)
  | none => (Trial.features e.program).map fun f => (f, { e with features := some f })

/-- Finds the order of growth, unless it is known. -/
def findOrder (e : Extractor) : Trial (Order × Extractor) :=
  match e.order with
  | some o => .done (o, e)
  | none => e.findFeatures.map fun (f, e) =>
    let o := Order.classify e.program f
    (o, { e with order := some o })

/-- Finds the features and the order of growth. -/
def findProfile (e : Extractor) : Trial (Profile × Extractor) :=
  e.findOrder.bind fun (order, e) => e.findFeatures.map fun (features, e) => (⟨features, order⟩, e)

end Extractor

end Growth
