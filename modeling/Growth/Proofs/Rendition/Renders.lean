import Growth.Proofs.Rendition.Condition
import Growth.Proofs.Rendition.Skeleton

/-! What target code reads for statements of pseudocode: statements with the same structure, whose
values and conditions are what it reads for those of pseudocode alone. -/

namespace Growth.Pseudo

open Code (Expression)

mutual

/-- What target code reads for a statement. A repetition is left at the end of its body. -/
inductive Statement.Renders : Statement → Code.Statement → Prop
  | assign {target : Target} {value : Calc} {x : Expression}
      (hx : expression? value.text = some x) :
      Statement.Renders (.assign target value) (.assign target.code x)
  | branch {condition : Condition} {body : List Statement} {x : Expression}
      {b : List Code.Statement} (hx : expression? condition.text = some x)
      (hb : Statement.AllRender body b) :
      Statement.Renders (.branch condition body) (.branch x b [])
  | choice {condition : Condition} {body other : List Statement} {x : Expression}
      {b o : List Code.Statement} (hx : expression? condition.text = some x)
      (hb : Statement.AllRender body b) (ho : Statement.AllRender other o) :
      Statement.Renders (.choice condition body other) (.branch x b o)
  | each {counter : String} {source : Source} {body : List Statement} {x : Expression}
      {b : List Code.Statement} (hx : expression? source.text = some x)
      (hb : Statement.AllRender body b) :
      Statement.Renders (.each counter source body) (.forLoop counter x b)
  | repetition {body : List Statement} {condition : Condition} {b : List Code.Statement}
      {x : Expression} (hb : Statement.AllRender body b)
      (hx : expression? condition.text = some x) :
      Statement.Renders (.repetition body condition)
        (.whileLoop (.boolean true) (b ++ [.branch x [.breakLoop] []]))
  | procedure {name : String} {parameters : List String} {body : List Statement}
      {b : List Code.Statement} (hb : Statement.AllRender body b) :
      Statement.Renders (.procedure name parameters body) (.function name parameters b)
  | noResult : Statement.Renders (.result none) (.result none)
  | result {value : Calc} {x : Expression} (hx : expression? value.text = some x) :
      Statement.Renders (.result (some value)) (.result (some x))

/-- What target code reads for statements. -/
inductive Statement.AllRender : List Statement → List Code.Statement → Prop
  | nil : Statement.AllRender [] []
  | cons {s : Statement} {s' : Code.Statement} {ss : List Statement}
      {ss' : List Code.Statement} (h : s.Renders s') (hs : Statement.AllRender ss ss') :
      Statement.AllRender (s :: ss) (s' :: ss')

end

theorem Statement.Renders.all {s : Statement} {s' : Code.Statement} (h : s.Renders s') :
    Statement.AllRender [s] [s'] :=
  .cons h .nil

theorem Statement.AllRender.append {ss tt : List Statement} {ss' tt' : List Code.Statement}
    (h : Statement.AllRender ss ss') (h' : Statement.AllRender tt tt') :
    Statement.AllRender (ss ++ tt) (ss' ++ tt') := by
  induction ss generalizing ss' with
  | nil =>
    cases h
    exact h'
  | cons s ss ih =>
    cases h with
    | cons h hs => exact .cons h (ih hs)

mutual

theorem Statement.Renders.skeleton {s : Statement} {s' : Code.Statement} (h : s.Renders s') :
    s'.skeleton = s.skeleton := by
  cases h with
  | assign | noResult | result => rfl
  | branch hx hb =>
    rw [Code.Statement.skeleton, Statement.skeleton, hb.skeletons, Code.Statement.skeletons]
  | choice hx hb ho =>
    rw [Code.Statement.skeleton, Statement.skeleton, hb.skeletons, ho.skeletons]
  | each hx hb => rw [Code.Statement.skeleton, Statement.skeleton, hb.skeletons]
  | repetition hb hx =>
    rw [Code.Statement.skeleton, Statement.skeleton, Code.Statement.skeletons_append, hb.skeletons]
    rfl
  | procedure hb => rw [Code.Statement.skeleton, Statement.skeleton, hb.skeletons]

/-- What is read for statements has their skeletons. -/
theorem Statement.AllRender.skeletons {ss : List Statement} {ss' : List Code.Statement}
    (h : Statement.AllRender ss ss') :
    Code.Statement.skeletons ss' = Statement.skeletons ss := by
  cases h with
  | nil => rfl
  | cons h hs => rw [Code.Statement.skeletons, Statement.skeletons, h.skeleton, hs.skeletons]

end

end Growth.Pseudo
