import Growth.Order
import Growth.Proofs.Code.Renaming

/-! How names are spelled does not count: with other names a program has the same features, and with
the same features the same order of growth. -/

namespace Growth

open Code

variable (r : Renaming)

namespace Features

/-! ### Functions -/

theorem selfCallsOf_renamed (m : Module) : selfCallsOf (m.renamed r) = selfCallsOf m := by
  rw [selfCallsOf, Module.functions_renamed, List.map_map, selfCallsOf]
  simp only [Function.comp_def, Function.selfCalls_renamed, List.length_map]

/-! ### Collections -/

theorem isCollection_renamed (x : Expression) : isCollection (x.renamed r) = isCollection x := by
  cases x <;> rfl

theorem nonScalarOf_renamed (m : Module) : nonScalarOf (m.renamed r) = nonScalarOf m := by
  rw [nonScalarOf, Module.expressions_renamed, List.any_map, nonScalarOf]
  simp only [Function.comp_def, isCollection_renamed]

theorem collected?_renamed (s : Statement) :
    collected? (s.renamed r) = (collected? s).map r := by
  cases s with
  | assign target value =>
    cases target with
    | name n =>
      simp only [Statement.renamed, Target.renamed, collected?, isCollection_renamed]
      split <;> rfl
    | _ => rfl
  | _ => rfl

theorem isAmong_renamed (names : List String) (x : Expression) :
    isAmong (names.map r) (x.renamed r) = isAmong names x := by
  unfold isAmong
  rw [Expression.name?_renamed]
  cases x.name? with
  | none => rfl
  | some n => exact r.contains_map names n

/-- A call regards nothing unless it asks for a length. -/
theorem regards_call_eq_false (names : List String) {n : String} (h : n ≠ "len")
    (arguments : List Expression) : regards names (.call (.name n) arguments) = false := by
  unfold regards
  split
  · contradiction
  · rename_i heq
    cases heq
    exact absurd rfl h
  · rfl

theorem regards_renamed (names : List String) (x : Expression) :
    regards (names.map r) (x.renamed r) = regards names x := by
  cases x with
  | name n => exact isAmong_renamed r names (.name n)
  | item object index => exact isAmong_renamed r names object
  | call callee arguments =>
    cases callee with
    | name n =>
      rw [Expression.renamed, Expression.renamed, Expression.renamedAll_eq]
      by_cases hn : n = "len"
      · rw [hn, r.len]
        rcases arguments with _ | ⟨x, _ | ⟨y, others⟩⟩
        · rfl
        · exact isAmong_renamed r names x
        · rfl
      · rw [regards_call_eq_false names hn, regards_call_eq_false _ (mt r.eq_len_iff.mp hn)]
    | _ => rfl
  | _ => rfl

/-- A loop depends on names if it depends on the new names with the new names in it. -/
theorem dependsOn_renamed (names : List String) (s : Statement) :
    dependsOn (names.map r) (s.renamed r) = dependsOn names s := by
  have hcompared := Statement.flatMap_compared_renamed r s
  have hregards : regards (names.map r) ∘ Expression.renamed r = regards names :=
    funext (regards_renamed r names)
  cases s with
  | forLoop counter iterable body => exact isAmong_renamed r names iterable
  | breakLoop | continueLoop | pass => rfl
  | _ =>
    rw [Statement.renamed] at hcompared ⊢
    simp only [dependsOn]
    rw [hcompared, List.any_map, hregards]

theorem hasCollectionLoop_renamed (names : List String) (ss : List Statement) :
    hasCollectionLoop (names.map r) (ss.map (Statement.renamed r)) =
      hasCollectionLoop names ss := by
  induction ss generalizing names with
  | nil => rfl
  | cons s ss ih =>
    have hnames : (collected? (s.renamed r)).toList ++ names.map r =
        ((collected? s).toList ++ names).map r := by
      rw [collected?_renamed, List.map_append]
      cases collected? s <;> rfl
    rw [List.map_cons, hasCollectionLoop, dependsOn_renamed, hnames, ih, hasCollectionLoop]

theorem collectionLoopOf_renamed (m : Module) :
    collectionLoopOf (m.renamed r) = collectionLoopOf m := by
  rw [collectionLoopOf, Module.statements_renamed, collectionLoopOf]
  exact congrArg Bool.toNat (hasCollectionLoop_renamed r [] m.statements)

/-! ### Loops -/

mutual

theorem depth_renamed : (s : Statement) → depth (s.renamed r) = depth s
  | .whileLoop _ body | .forLoop _ _ body | .function _ _ body => by
    simp only [Statement.renamed, depth, depths_renamedAll body]
  | .branch _ body other => by
    simp only [Statement.renamed, depth, depths_renamedAll body, depths_renamedAll other]
  | .assign _ _ | .update _ _ _ | .result _ | .breakLoop | .continueLoop | .pass
  | .expression _ => rfl

theorem depths_renamedAll :
    (ss : List Statement) → depths (Statement.renamedAll r ss) = depths ss
  | [] => rfl
  | s :: ss => by rw [Statement.renamedAll, depths, depth_renamed s, depths_renamedAll ss, depths]

end

theorem nestingOf_renamed (m : Module) : nestingOf (m.renamed r) = nestingOf m := by
  rw [nestingOf, Module.renamed, ← Statement.renamedAll_eq, depths_renamedAll, nestingOf]

theorem filter_isLoop_renamed (ss : List Statement) :
    (ss.map (Statement.renamed r)).filter Statement.isLoop =
      (ss.filter Statement.isLoop).map (Statement.renamed r) := by
  simp only [List.filter_map, Function.comp_def, Statement.isLoop_renamed]

theorem loopKindOf_renamed (m : Module) : loopKindOf (m.renamed r) = loopKindOf m := by
  unfold loopKindOf
  rw [Module.statements_renamed, filter_isLoop_renamed]
  simp only [List.isEmpty_map, List.all_map]
  generalize m.statements.filter Statement.isLoop = loops
  refine congrArg (fun counts => if loops.isEmpty then 0 else if loops.all counts then 1 else 2)
    (funext fun s => ?_)
  cases s <;> rfl

/-! ### Values -/

theorem remade?_renamed (s : Statement) : remade? (s.renamed r) = (remade? s).map r := by
  cases s with
  | assign target value =>
    cases target with
    | name n =>
      simp only [Statement.renamed, Target.renamed, remade?, Expression.mentions_renamed]
      split <;> rfl
    | _ => rfl
  | _ => rfl

theorem remade_renamed (body : List Statement) :
    remade (body.map (Statement.renamed r)) = (remade body).map r := by
  rw [remade, statementsIn_renamed, List.filterMap_map, remade, List.map_filterMap]
  exact congrArg (List.filterMap · _) (funext fun s => remade?_renamed r s)

theorem passesRemade_renamed (f : Function) : passesRemade (f.renamed r) = passesRemade f := by
  have hbody : (f.renamed r).body = f.body.map (Statement.renamed r) := rfl
  rw [passesRemade, Function.selfCalls_renamed, hbody, remade_renamed, passesRemade]
  simp only [List.any_map, Function.comp_def, isAmong_renamed]

theorem reusedValueOf_renamed (m : Module) : reusedValueOf (m.renamed r) = reusedValueOf m := by
  have hrepeated : (m.renamed r).statements.filterMap Statement.repeated? =
      (m.statements.filterMap Statement.repeated?).map (List.map (Statement.renamed r)) := by
    rw [Module.statements_renamed, List.filterMap_map, List.map_filterMap]
    exact congrArg (List.filterMap · _) (funext fun s => Statement.repeated?_renamed r s)
  rw [reusedValueOf, hrepeated, Module.functions_renamed, reusedValueOf]
  simp only [List.any_map, Function.comp_def, remade_renamed, List.isEmpty_map,
    passesRemade_renamed]

end Features

namespace Order

open Features

theorem ofRecursion_renamed (m : Module) : ofRecursion (m.renamed r) = ofRecursion m := by
  unfold ofRecursion
  rw [Module.functions_renamed]
  simp only [List.filter_map, List.isEmpty_map, List.all_map, Function.comp_def,
    Function.selfCalls_renamed, Function.converges_renamed]

theorem isUnbounded_renamed (f : Features) (s : Statement) :
    isUnbounded f (s.renamed r) = isUnbounded f s := by
  have hcounts := Statement.counts_renamed r s
  have hhalves := Statement.halves_renamed r s
  cases s with
  | forLoop counter iterable body =>
    rw [Statement.renamed] at hcounts ⊢
    rw [isUnbounded, hcounts, isUnbounded]
  | whileLoop condition body =>
    rw [Statement.renamed] at hhalves ⊢
    rw [isUnbounded, hhalves, isUnbounded]
  | _ => rfl

theorem raised_renamed (o : Order) (f : Features) (loops : List Statement) :
    o.raised f (loops.map (Statement.renamed r)) = o.raised f loops := by
  simp only [raised, List.any_map, Function.comp_def, Statement.halves_renamed,
    isUnbounded_renamed]

/-- With other names a program has the features that it had, and with any features the order of growth
that it had with them. -/
theorem classify_renamed (m : Module) (abnormal repeated : Nat) (f : Features) :
    Features.ofModule (m.renamed r) abnormal repeated = .ofModule m abnormal repeated ∧
      classify (m.renamed r) f = classify m f := by
  constructor
  · simp only [Features.ofModule, selfCallsOf_renamed, collectionLoopOf_renamed,
      nestingOf_renamed, loopKindOf_renamed, nonScalarOf_renamed, reusedValueOf_renamed]
  · rw [classify, ofRecursion_renamed, Module.statements_renamed, filter_isLoop_renamed]
    simp only [raised_renamed]
    rfl

example :
    let m : Module := ⟨[.assign (.name "s") (.list []), .forLoop "i" (.name "s") [.pass]]⟩
    let m' := m.renamed (.swap "s" "i" (by decide) (by decide))
    m' = ⟨[.assign (.name "i") (.list []), .forLoop "s" (.name "i") [.pass]]⟩ ∧
      collectionLoopOf m' = 1 :=
  ⟨rfl, by decide +kernel⟩

end Order

end Growth
