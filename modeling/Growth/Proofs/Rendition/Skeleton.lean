import Growth.Code.Tree
import Growth.Proofs.Pseudo.Regroup
import Growth.Proofs.Rendition.Calculation

/-! Statements without their values and conditions: their kinds, order and nesting, what is assigned
to, and the names that they bind. -/

namespace Growth

/-- A statement of target code without its values and conditions. Only of a loop it is known whether
its condition always holds. -/
inductive Skeleton where
  | function (name : String) (parameters : List String) (body : List Skeleton)
  | assign (target : Code.Target)
  | update (target : Code.Target) (op : Operator)
  | forever (body : List Skeleton)
  | whileLoop (body : List Skeleton)
  | forLoop (counter : String) (body : List Skeleton)
  | branch (body other : List Skeleton)
  | result (valued : Bool)
  | breakLoop
  | continueLoop
  | pass
  | expression

namespace Code.Statement

mutual

/-- The skeleton of a statement. -/
def skeleton : Statement → Skeleton
  | function name parameters body => .function name parameters (skeletons body)
  | assign target _ => .assign target
  | update target op _ => .update target op
  | whileLoop condition body =>
    match condition with
    | .boolean true => .forever (skeletons body)
    | _ => .whileLoop (skeletons body)
  | forLoop counter _ body => .forLoop counter (skeletons body)
  | branch _ body other => .branch (skeletons body) (skeletons other)
  | result value => .result value.isSome
  | breakLoop => .breakLoop
  | continueLoop => .continueLoop
  | pass => .pass
  | expression _ => .expression

/-- The skeletons of statements. -/
def skeletons : List Statement → List Skeleton
  | [] => []
  | s :: ss => s.skeleton :: skeletons ss

end

theorem skeletons_append (ss ss' : List Statement) :
    skeletons (ss ++ ss') = skeletons ss ++ skeletons ss' := by
  induction ss with
  | nil => rfl
  | cons s ss ih => rw [List.cons_append, skeletons, skeletons, ih, List.cons_append]

end Code.Statement

/-- What a name of pseudocode is in target code, which has names for some values. -/
def Code.Expression.ofName (n : String) : Code.Expression :=
  match Code.nameKind n with
  | .keyword .trueKw => .boolean true
  | .keyword .falseKw => .boolean false
  | .keyword .noneKw => .none
  | _ => .name n

theorem Code.Expression.eq_ofName {n : String} {x : Code.Expression}
    (h : Code.Expression.ofName? n = some x) : x = .ofName n := by
  unfold Code.Expression.ofName? at h
  unfold Code.Expression.ofName
  split at h
  · rename_i n' hk
    obtain rfl : n' = n := by
      unfold Code.nameKind at hk
      split at hk
      · exact nomatch hk
      · exact (Code.Kind.identifier.inj hk).symm
    rw [hk]
    exact (Option.some.inj h).symm
  · rename_i hk
    rw [hk, ← Option.some.inj h]
  · rename_i hk
    rw [hk, ← Option.some.inj h]
  · rename_i hk
    rw [hk, ← Option.some.inj h]
  · exact nomatch h

namespace Pseudo

open Code (Expression)

/-- An index in target code. -/
def Index.code : Index → Expression
  | number lexeme => .ofNumeral (Numeral.normal lexeme.toList)
  | name n => .ofName n

/-- What is assigned to in target code. -/
def Target.code : Target → Code.Target
  | name n => .name n
  | item n index => .item (.ofName n) index.code

mutual

/-- The skeleton of a statement of pseudocode. A repetition is left at the end of its body. -/
def Statement.skeleton : Statement → Skeleton
  | assign target _ => .assign target.code
  | branch _ body => .branch (Statement.skeletons body) []
  | choice _ body other => .branch (Statement.skeletons body) (Statement.skeletons other)
  | each counter _ body => .forLoop counter (Statement.skeletons body)
  | repetition body _ => .forever (Statement.skeletons body ++ [.branch [.breakLoop] []])
  | procedure name parameters body => .function name parameters (Statement.skeletons body)
  | result value => .result value.isSome

/-- The skeletons of statements of pseudocode. -/
def Statement.skeletons : List Statement → List Skeleton
  | [] => []
  | s :: ss => s.skeleton :: Statement.skeletons ss

end

mutual

/-- Grouping the calculations and conditions of a statement otherwise leaves its skeleton. -/
theorem Statement.skeleton_regrouped : (s : Statement) → s.regrouped.skeleton = s.skeleton
  | .assign .. => rfl
  | .branch _ body => by
    simp [Statement.regrouped, Statement.skeleton, Statement.skeletons_allRegrouped body]
  | .choice _ body other => by
    simp [Statement.regrouped, Statement.skeleton, Statement.skeletons_allRegrouped body,
      Statement.skeletons_allRegrouped other]
  | .each _ _ body => by
    simp [Statement.regrouped, Statement.skeleton, Statement.skeletons_allRegrouped body]
  | .repetition body _ => by
    simp [Statement.regrouped, Statement.skeleton, Statement.skeletons_allRegrouped body]
  | .procedure _ _ body => by
    simp [Statement.regrouped, Statement.skeleton, Statement.skeletons_allRegrouped body]
  | .result none => rfl
  | .result (some _) => rfl

theorem Statement.skeletons_allRegrouped : (ss : List Statement) →
    Statement.skeletons (Statement.allRegrouped ss) = Statement.skeletons ss
  | [] => rfl
  | s :: ss => by
    rw [Statement.allRegrouped, Statement.skeletons, Statement.skeletons,
      Statement.skeleton_regrouped s, Statement.skeletons_allRegrouped ss]

end

end Pseudo

end Growth
