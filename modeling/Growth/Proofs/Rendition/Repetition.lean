import Growth.Proofs.Code.PrintedExpression
import Growth.Proofs.Code.Walk
import Growth.Proofs.Rendition.Program
import Mathlib.Data.List.Forall2

/-! How the loops of target code end that repetitions become. A repetition is left by a branch at the
end of its body; but a branch before it counts as the way out if a loop inside it is left, and so does
the branch that leaves a loop inside the body. -/

namespace Growth

namespace Code.Statement

/-- Whether a statement is a loop with a condition. -/
def isWhile : Statement → Bool
  | whileLoop .. => true
  | _ => false

/-- Whether a statement is a way out of a loop. -/
def isBreak : Statement → Bool
  | breakLoop => true
  | _ => false

theorem leaves_eq (s : Statement) : s.leaves = (s :: statementsIn s.inner).any isBreak := by
  rw [leaves, statementsIn_cons, statementsIn_nil, List.append_nil]
  rfl

end Code.Statement

namespace Pseudo

open Code (Expression statementsIn statementsIn_cons statementsIn_append statementsIn_nil)

/-! ### Repetitions and what leaves them -/

mutual

/-- The repetitions in a statement, each before those in it. -/
def Statement.repetitions : Statement → List Statement
  | branch _ body | each _ _ body | procedure _ _ body => Statement.repetitionsIn body
  | choice _ body other => Statement.repetitionsIn body ++ Statement.repetitionsIn other
  | repetition body condition => .repetition body condition :: Statement.repetitionsIn body
  | assign .. | result _ => []

/-- The repetitions in statements, each before those in it. -/
def Statement.repetitionsIn : List Statement → List Statement
  | [] => []
  | s :: ss => s.repetitions ++ Statement.repetitionsIn ss

end

mutual

/-- The condition that is taken for the end of a loop around a statement: that of a branch with a
repetition in it, and for a repetition the one that is taken for its own end. -/
def Statement.leaving? : Statement → Option Condition
  | branch condition body =>
    if (Statement.repetitionsIn body).isEmpty then none else some condition
  | choice condition body other =>
    if (Statement.repetitionsIn body ++ Statement.repetitionsIn other).isEmpty then none
    else some condition
  | each _ _ body | procedure _ _ body => Statement.leavingIn? body
  | repetition body condition => some ((Statement.leavingIn? body).getD condition)
  | assign .. | result _ => none

/-- The condition that the first of the statements gives that gives one. -/
def Statement.leavingIn? : List Statement → Option Condition
  | [] => none
  | s :: ss => s.leaving?.or (Statement.leavingIn? ss)

end

mutual

theorem Statement.leaving?_eq_none_iff :
    (s : Statement) → (s.leaving? = none ↔ s.repetitions = [])
  | .assign .. | .result _ => by simp [Statement.leaving?, Statement.repetitions]
  | .branch _ body => by simp [Statement.leaving?, Statement.repetitions]
  | .choice _ body other => by simp [Statement.leaving?, Statement.repetitions]
  | .each _ _ body | .procedure _ _ body => by
    rw [Statement.leaving?, Statement.repetitions, Statement.leavingIn?_eq_none_iff body]
  | .repetition body condition => by simp [Statement.leaving?, Statement.repetitions]

/-- Statements without repetitions give no condition, and no others do. -/
theorem Statement.leavingIn?_eq_none_iff :
    (ss : List Statement) → (Statement.leavingIn? ss = none ↔ Statement.repetitionsIn ss = [])
  | [] => by simp [Statement.leavingIn?, Statement.repetitionsIn]
  | s :: ss => by
    rw [Statement.leavingIn?, Statement.repetitionsIn, Option.or_eq_none_iff,
      List.append_eq_nil_iff, Statement.leaving?_eq_none_iff s, Statement.leavingIn?_eq_none_iff ss]

end

/-! ### Loops of target code -/

/-- The loop that target code reads for a repetition ends on the condition that is taken for the end
of the repetition. -/
structure Statement.EndsAs (r : Statement) (w : Code.Statement) : Prop where
  renders : r.Renders w
  condition : ∃ c x, r.leaving? = some c ∧ expression? c.text = some x ∧ w.breakCondition? = some x

/-- The statements `ss` have ways out if there are repetitions `rs`, and are left on the condition
`c`. Their loops end as the repetitions do. -/
structure LoopsAs (rs : List Statement) (c : Option Condition) (ss : List Code.Statement) :
    Prop where
  leaves : ss.any Code.Statement.isBreak = !rs.isEmpty
  condition : Option.Rel (fun c x => expression? c.text = some x) c
    (ss.findSome? Code.Statement.leavingCondition?)
  loops : List.Forall₂ Statement.EndsAs rs (ss.filter Code.Statement.isWhile)

namespace LoopsAs

variable {rs rs' : List Statement} {c c' : Option Condition} {ss ss' : List Code.Statement}

theorem nil : LoopsAs [] none [] :=
  ⟨rfl, .none, .nil⟩

theorem append (h : LoopsAs rs c ss) (h' : LoopsAs rs' c' ss') :
    LoopsAs (rs ++ rs') (c.or c') (ss ++ ss') := by
  refine ⟨?_, ?_, ?_⟩
  · rw [List.any_append, h.leaves, h'.leaves]
    cases rs <;> rfl
  · have hcondition := h.condition
    rw [List.findSome?_append]
    generalize ss.findSome? _ = found at hcondition
    cases hcondition with
    | none => exact h'.condition
    | some hx => exact .some hx
  · rw [List.filter_append]
    exact List.rel_append h.loops h'.loops

/-- A statement that is no loop with a condition, no branch and no way out adds nothing. -/
theorem cons {s : Code.Statement} (hwhile : s.isWhile = false) (hbreak : s.isBreak = false)
    (hbranch : s.leavingCondition? = none) (h : LoopsAs rs c ss) : LoopsAs rs c (s :: ss) := by
  refine ⟨?_, ?_, ?_⟩
  · rw [List.any_cons, hbreak, Bool.false_or, h.leaves]
  · rw [List.findSome?_cons_of_isNone (by rw [hbranch]; rfl)]
    exact h.condition
  · rw [List.filter_cons_of_neg (by rw [hwhile]; simp)]
    exact h.loops

/-- A branch with repetitions in it is left on its condition. -/
theorem branch {condition : Condition} {x : Expression} {b o : List Code.Statement}
    (hx : expression? condition.text = some x) (h : LoopsAs rs c (statementsIn (b ++ o)))
    (hc : c = none ↔ rs = []) :
    LoopsAs rs (if rs.isEmpty then none else some condition)
      (statementsIn [.branch x b o]) := by
  have hstatements : statementsIn [.branch x b o] = .branch x b o :: statementsIn (b ++ o) := by
    rw [statementsIn_cons, statementsIn_nil, List.append_nil]
    rfl
  have hleaves : (Code.Statement.branch x b o).leaves = !rs.isEmpty :=
    (Code.Statement.leaves_eq _).trans h.leaves
  rw [hstatements]
  refine ⟨h.leaves, ?_, h.loops⟩
  cases rs with
  | nil =>
    have hcondition := h.condition
    rw [hc.mpr rfl] at hcondition
    rw [List.findSome?_cons_of_isNone]
    · exact hcondition
    · rw [Code.Statement.leavingCondition?, hleaves]
      rfl
  | cons r rs =>
    rw [List.findSome?_cons_of_isSome]
    · rw [Code.Statement.leavingCondition?, hleaves]
      exact .some hx
    · rw [Code.Statement.leavingCondition?, hleaves]
      rfl

/-- A repetition is a loop that is left where its body is, or at the end of it. -/
theorem repetition {body : List Statement} {condition : Condition} {x : Expression}
    {b : List Code.Statement} (hx : expression? condition.text = some x)
    (hrenders : Statement.AllRender body b)
    (h : LoopsAs (Statement.repetitionsIn body) (Statement.leavingIn? body) (statementsIn b)) :
    LoopsAs (Statement.repetition body condition).repetitions
      (Statement.repetition body condition).leaving?
      (statementsIn
        [.whileLoop (.boolean true) (b ++ [Code.Statement.branch x [.breakLoop] []])]) := by
  have hend : statementsIn [.branch x [.breakLoop] []] =
      [.branch x [.breakLoop] [], .breakLoop] := by
    simp [statementsIn_cons, Code.Statement.inner]
  have hleaves : (Code.Statement.branch x [.breakLoop] []).leaves = true := by
    simp [Code.Statement.leaves_eq, statementsIn_cons, Code.Statement.inner,
      Code.Statement.isBreak]
  have hinner : statementsIn (b ++ [Code.Statement.branch x [.breakLoop] []]) =
      statementsIn b ++ [Code.Statement.branch x [.breakLoop] [], .breakLoop] := by
    rw [statementsIn_append, hend]
  have hleft : ∃ y, expression? ((Statement.leavingIn? body).getD condition).text = some y ∧
      (statementsIn (b ++ [Code.Statement.branch x [.breakLoop] []])).findSome?
        Code.Statement.leavingCondition? = some y := by
    have hcondition := h.condition
    rw [hinner, List.findSome?_append]
    generalize (statementsIn b).findSome? _ = found at hcondition
    generalize Statement.leavingIn? body = c at hcondition ⊢
    cases hcondition with
    | none => exact ⟨x, hx, by simp [Code.Statement.leavingCondition?, hleaves]⟩
    | some hy => exact ⟨_, hy, rfl⟩
  obtain ⟨y, hy, hfound⟩ := hleft
  rw [statementsIn_cons, statementsIn_nil, List.append_nil]
  refine ⟨?_, ?_, ?_⟩
  · rw [Code.Statement.inner, hinner]
    simp [Statement.repetitions, Code.Statement.isBreak]
  · rw [List.findSome?_cons_of_isNone rfl, Code.Statement.inner, hfound]
    exact .some hy
  · rw [Code.Statement.inner, hinner, List.filter_cons_of_pos rfl, List.filter_append]
    refine .cons ⟨.repetition hrenders hx, _, y, rfl, hy, hfound⟩ ?_
    simpa [Code.Statement.isWhile] using h.loops

end LoopsAs

mutual

/-- The loops that target code reads for a statement end as the repetitions in it do. -/
theorem Statement.Renders.loopsAs {s : Statement} {s' : Code.Statement} (h : s.Renders s') :
    LoopsAs s.repetitions s.leaving? (statementsIn [s']) := by
  cases h with
  | assign | noResult | result =>
    rw [statementsIn_cons, statementsIn_nil]
    exact LoopsAs.nil.cons rfl rfl rfl
  | @branch _ body _ b hx hb =>
    have hbody := hb.loopsAs
    rw [← List.append_nil b] at hbody
    exact hbody.branch hx (Statement.leavingIn?_eq_none_iff body)
  | choice hx hb ho =>
    have hboth := hb.loopsAs.append ho.loopsAs
    rw [← statementsIn_append] at hboth
    refine hboth.branch hx ?_
    rw [Option.or_eq_none_iff, Statement.leavingIn?_eq_none_iff, Statement.leavingIn?_eq_none_iff]
    exact List.append_eq_nil_iff.symm
  | each hx hb =>
    rw [statementsIn_cons, statementsIn_nil, List.append_nil]
    exact hb.loopsAs.cons rfl rfl rfl
  | repetition hb hx => exact LoopsAs.repetition hx hb hb.loopsAs
  | procedure hb =>
    rw [statementsIn_cons, statementsIn_nil, List.append_nil]
    exact hb.loopsAs.cons rfl rfl rfl

/-- So do those that it reads for statements. -/
theorem Statement.AllRender.loopsAs {ss : List Statement} {ss' : List Code.Statement}
    (h : Statement.AllRender ss ss') :
    LoopsAs (Statement.repetitionsIn ss) (Statement.leavingIn? ss) (statementsIn ss') := by
  cases h with
  | nil => exact .nil
  | @cons s s' ss ss' h hs =>
    have hsplit : s' :: ss' = [s'] ++ ss' := rfl
    rw [hsplit, statementsIn_append]
    exact h.loopsAs.append hs.loopsAs

end

/-- A loop that is read for a repetition ends as the repetition does. -/
theorem Statement.Renders.endsAs {body : List Statement} {condition : Condition}
    {w : Code.Statement} (h : (Statement.repetition body condition).Renders w) :
    Statement.EndsAs (.repetition body condition) w := by
  have hloops := h.loopsAs.loops
  cases h with
  | repetition hb hx =>
    rw [statementsIn_cons, List.filter_cons_of_pos rfl] at hloops
    exact (List.forall₂_cons.mp hloops).1

namespace Rendition

/-- The loops of the program that a text becomes are those for its repetitions, in order. Each ends
on the condition that is taken for the end of its repetition, which is the repetition's own where no
other one is inside it. -/
theorem endsAs_ofText_code {source code : String} {m : Code.Module}
    (hclean : ∀ d ∈ (ofText source).diagnostics, d.problem.isLexical = true)
    (hcode : (ofText source).code = some code) (hm : Code.Module.ofText code = .ok m) :
    List.Forall₂ Statement.EndsAs
        (Statement.repetitionsIn (readStatements [] (tokens source)).statements)
        (m.statements.filter Code.Statement.isWhile) ∧
      ∀ body condition, Statement.repetitionsIn body = [] →
        (Statement.repetition body condition).leaving? = some condition := by
  constructor
  · rw [Code.Module.statements_eq]
    exact (allRender_ofText_code hclean hcode hm).loopsAs.loops
  · intro body condition hnone
    rw [Statement.leaving?, (Statement.leavingIn?_eq_none_iff body).mpr hnone]
    rfl

/-- A branch in a repetition is taken for its end if there is another repetition in the branch. -/
theorem endsAs_ofText_code_branch :
    let source := "repeat if a > 3 then repeat a <- 1 until b endif until c"
    ∃ code m w w', (ofText source).code = some code ∧ Code.Module.ofText code = .ok m ∧
      m.statements.filter Code.Statement.isWhile = [w, w'] ∧
      w.breakCondition? = expression? "a > 3" ∧ w'.breakCondition? = expression? "b" := by
  intro source
  have hstatements : (readStatements [] (tokens source)).statements =
      [.repetition [.branch (.compare (.name "a") (.relation .gt) (.number "3"))
        [.repetition [.assign (.name "a") (.number "1")] (.value (.name "b"))]]
          (.value (.name "c"))] :=
    readStatements_of_words
      (by simp [Statement.AllSettled, Statement.Settled, Condition.Settled, Calc.Grouped,
        Calc.isGroup])
      (by simp [Statement.AllFull, Statement.Full]) (by decide +kernel)
  obtain ⟨code, hcode⟩ : ∃ code, (ofText source).code = some code :=
    Option.isSome_iff_exists.mp (by decide +kernel)
  obtain ⟨m, hm⟩ := exists_module hcode (by decide +kernel)
  obtain ⟨hloops, -⟩ := endsAs_ofText_code (by decide +kernel) hcode hm
  rw [hstatements] at hloops
  generalize hws : m.statements.filter Code.Statement.isWhile = ws at hloops
  obtain _ | ⟨hw, _ | ⟨hw', _ | _⟩⟩ := hloops
  obtain ⟨c, x, hc, hx, hbreak⟩ := hw.condition
  obtain ⟨c', x', hc', hx', hbreak'⟩ := hw'.condition
  obtain rfl : _ = c := Option.some.inj hc
  obtain rfl : _ = c' := Option.some.inj hc'
  exact ⟨code, m, _, _, hcode, hm, hws, hbreak.trans hx.symm, hbreak'.trans hx'.symm⟩

/-- A printable expression is read back from its text. -/
theorem expression?_of_printable {x : Expression} {text : String} (h : x.Printable)
    (htext : x.text = text) (htidy : Tidy text.toList) : expression? text = some x := by
  subst htext
  exact expression?_of_denotes htidy.squeezed (.head _) htidy (Expression.opens x h)
    ((Expression.denotes_or x h).loosen (by decide))

/-- A loop around another one ends on the condition of the one inside it, and not on its own. -/
theorem breakCondition?_ofText_code_nested :
    let source := "s <- [1] repeat repeat a <- 1 until a > 3 until a < s"
    let own : Condition := .compare (.name "a") (.relation .lt) (.name "s")
    ∃ code m body w, ofText source = ⟨some code, []⟩ ∧ Code.Module.ofText code = .ok m ∧
      .repetition body own ∈ (readStatements [] (tokens source)).statements ∧
      w ∈ m.body ∧ (Statement.repetition body own).Renders w ∧
      expression? own.text = some (.compare (.name "a") [(.relation .lt, .name "s")]) ∧
      w.breakCondition? = some (.compare (.name "a") [(.relation .gt, .integer "3")]) := by
  intro source own
  have ha : Code.Spells "a".toList (.identifier "a") := ⟨_, _, rfl, rfl⟩
  have hs : Code.Spells "s".toList (.identifier "s") := ⟨_, _, rfl, rfl⟩
  have h3 : Code.Spells "3".toList (.integer "3") := ⟨_, _, rfl, rfl⟩
  have htidy : Tidy "a < s".toList ∧ Tidy "a > 3".toList := by
    have hword (c : Char) (hc : isPrintable c = true ∧ c ≠ ' ') : Tidy [c] := .single hc.1 hc.2
    have ha : Tidy ['a'] := hword 'a' (by decide)
    exact ⟨ha.spaced ((hword '<' (by decide)).spaced (hword 's' (by decide))),
      ha.spaced ((hword '>' (by decide)).spaced (hword '3' (by decide)))⟩
  have hown : expression? "a < s" = some (.compare (.name "a") [(.relation .lt, .name "s")]) :=
    expression?_of_printable ⟨ha, by simp, hs, trivial⟩ (by decide +kernel) htidy.1
  have hinner : expression? "a > 3" =
      some (.compare (.name "a") [(.relation .gt, .integer "3")]) :=
    expression?_of_printable ⟨ha, by simp, h3, trivial⟩ (by decide +kernel) htidy.2
  have hstatements : (readStatements [] (tokens source)).statements =
      [.assign (.name "s") (.list [.number "1"]), .repetition [.repetition
        [.assign (.name "a") (.number "1")]
        (.compare (.name "a") (.relation .gt) (.number "3"))] own] :=
    readStatements_of_words
      (by simp [own, Statement.AllSettled, Statement.Settled, Condition.Settled, Calc.Grouped,
        Calc.AllGrouped])
      (by simp [Statement.AllFull, Statement.Full]) (by decide +kernel)
  obtain ⟨code, hcode⟩ : ∃ code, (ofText source).code = some code :=
    Option.isSome_iff_exists.mp (by decide +kernel)
  have hnone : (ofText source).diagnostics = [] := by decide +kernel
  have hread : ofText source = ⟨some code, []⟩ := by rw [← hcode, ← hnone]
  obtain ⟨⟨b⟩, hm⟩ := exists_module hcode (by decide +kernel)
  have hrender := allRender_ofText_code (by simp [hnone]) hcode hm
  rw [hstatements] at hrender
  obtain _ | ⟨-, _ | ⟨hw, -⟩⟩ := hrender
  obtain ⟨c, x, hc, hx, hbreak⟩ := hw.endsAs.condition
  obtain rfl : _ = c := Option.some.inj hc
  refine ⟨code, _, _, _, hread, hm, by rw [hstatements]; simp, by simp, hw, hown, ?_⟩
  rw [hbreak, ← hx]
  exact hinner

end Rendition

end Pseudo

end Growth
