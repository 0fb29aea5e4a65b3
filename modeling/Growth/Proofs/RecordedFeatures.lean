import Growth.Order
import Growth.Proofs.Code.RecordedWalk

/-! A program that records looks like the program that it was: as long as it has no routine of its own
under the name of the one that records, it has the same features, and with the same features the same
order of growth. -/

namespace Growth

open Code Code.Recording

/-- No function of the program has the name of the routine that records. -/
def LeavesRoutine (m : Module) : Prop :=
  ∀ parameters body, .function routine parameters body ∉ m.statements

theorem LeavesRoutine.name_ne {m : Module} (h : LeavesRoutine m) :
    ∀ f ∈ m.functions, f.name ≠ routine := by
  intro f hf hname
  obtain ⟨s, hs, hf⟩ := List.mem_filterMap.mp (Function.mem_of_mem_firsts hf)
  cases s with
  | function name parameters body =>
    cases hf
    exact h parameters body (hname ▸ hs)
  | _ => cases hf

namespace Features

/-! ### Functions -/

theorem selfCallsOf_recorded {m : Module} (h : LeavesRoutine m) :
    selfCallsOf (recorded m) = selfCallsOf m := by
  have hcalls : (m.functions.map Function.recorded).map (fun f => f.selfCalls.length) =
      m.functions.map fun f => f.selfCalls.length := by
    rw [List.map_map]
    refine List.map_congr_left fun f hf => ?_
    rw [Function.comp_apply, Function.selfCalls_recorded (h.name_ne f hf)]
  rw [selfCallsOf, Module.functions_recorded, hcalls, selfCallsOf]

/-! ### Collections -/

theorem nonScalarOf_recorded (m : Module) : nonScalarOf (recorded m) = nonScalarOf m := by
  have hany (xs : List Expression) : xs.any isCollection =
      (xs.filterMap (Option.guard isCollection)).any isCollection := by
    rw [List.filterMap_eq_filter, List.any_filter]
    simp
  have hguard (x : Expression) (h : isCollection x = false) : Option.guard isCollection x = none := by
    simp [h]
  rw [nonScalarOf, nonScalarOf, Module.expressions_eq, Module.expressions_eq, hany, recorded,
    filterMap_expressionsIn_block (fun _ => hguard _ rfl) (fun _ => hguard _ rfl)
      (fun _ => hguard _ rfl), ← hany]

theorem collected?_statement (s : Statement) : collected? (statement s) = collected? s := by
  cases s <;> rfl

theorem dependsOn_statement (names : List String) (s : Statement) :
    dependsOn names (statement s) = dependsOn names s := by
  have hexits := Statement.exitConditions_statement s
  cases s with
  | whileLoop condition body =>
    rw [statement] at hexits ⊢
    simp only [dependsOn]
    rw [hexits]
  | _ => rfl

theorem hasCollectionLoop_map_statement (names : List String) (ss : List Statement) :
    hasCollectionLoop names (ss.map statement) = hasCollectionLoop names ss := by
  induction ss generalizing names with
  | nil => rfl
  | cons s ss ih =>
    rw [List.map_cons, hasCollectionLoop, dependsOn_statement, collected?_statement, ih,
      hasCollectionLoop]

/-- A call is no loop, and it collects nothing. -/
theorem hasCollectionLoop_filter (names : List String) (ss : List Statement) :
    hasCollectionLoop names (ss.filter fun s => !isCall s) = hasCollectionLoop names ss := by
  induction ss generalizing names with
  | nil => rfl
  | cons s ss ih =>
    cases hs : isCall s with
    | false =>
      rw [List.filter_cons_of_pos (by simp [hs]), hasCollectionLoop, ih, hasCollectionLoop]
    | true =>
      rw [List.filter_cons_of_neg (by simp [hs]), ih, hasCollectionLoop]
      cases s with
      | expression x => rfl
      | _ => cases hs

-- The statements come in one order with names collected on the way, so the calls cannot be
-- overlooked one node at a time: they are taken out of both programs.
theorem collectionLoopOf_recorded (m : Module) :
    collectionLoopOf (recorded m) = collectionLoopOf m := by
  have hstatements := filter_statementsIn_block (p := fun s => !isCall s)
    (fun n => by rw [isCall_call, Bool.not_true]) (fun s => by rw [isCall_statement])
    (m.body.any isCall) m.body
  rw [collectionLoopOf, Module.statements_eq, ← hasCollectionLoop_filter, recorded, hstatements,
    hasCollectionLoop_map_statement, hasCollectionLoop_filter, ← Module.statements_eq,
    collectionLoopOf]

/-! ### Loops -/

theorem depths_callsAfter_append (has : Bool) (s : Statement) (ss : List Statement) :
    depths (callsAfter has s ++ ss) = depths ss := by
  cases has with
  | true => rfl
  | false =>
    unfold callsAfter
    cases s.assigned? with
    | none => rfl
    | some n => exact Nat.zero_max (depths ss)

mutual

theorem depth_statement : (s : Statement) → depth (statement s) = depth s
  | .whileLoop _ body | .forLoop _ _ body | .function _ _ body => by
    rw [statement, depth, depth, depths_block _ body]
  | .branch _ body other => by
    rw [statement, depth, depth, depths_block _ body, depths_block _ other]
  | .assign _ _ | .update _ _ _ | .result _ | .breakLoop | .continueLoop | .pass
  | .expression _ => rfl

theorem depths_block (has : Bool) : (ss : List Statement) → depths (block has ss) = depths ss
  | [] => rfl
  | s :: ss => by
    rw [block, ← callsAfter, depths, depths_callsAfter_append, depth_statement s,
      depths_block has ss, depths]

end

theorem nestingOf_recorded (m : Module) : nestingOf (recorded m) = nestingOf m :=
  congrArg capped (depths_block _ m.body)

theorem loopKindOf_recorded (m : Module) : loopKindOf (recorded m) = loopKindOf m := by
  unfold loopKindOf
  rw [Statement.filter_isLoop_recorded]
  simp only [List.isEmpty_map, List.all_map]
  generalize m.statements.filter Statement.isLoop = loops
  refine congrArg (fun counts => if loops.isEmpty then 0 else if loops.all counts then 1 else 2)
    (funext fun s => ?_)
  cases s <;> rfl

/-! ### Values -/

theorem remade?_statement (s : Statement) : remade? (statement s) = remade? s := by
  cases s <;> rfl

theorem remade_block (has : Bool) (ss : List Statement) :
    remade (block has ss) = remade ss := by
  rw [remade, filterMap_statementsIn_block (fun _ => rfl), remade]
  exact congrArg (List.filterMap · _) (funext remade?_statement)

theorem passesRemade_recorded {f : Function} (h : f.name ≠ routine) :
    passesRemade f.recorded = passesRemade f := by
  have hbody : f.recorded.body = block (f.body.any isCall) f.body := rfl
  rw [passesRemade, Function.selfCalls_recorded h, hbody, remade_block, passesRemade]

theorem reusedValueOf_recorded {m : Module} (h : LeavesRoutine m) :
    reusedValueOf (recorded m) = reusedValueOf m := by
  have hrepeated : (recorded m).statements.filterMap Statement.repeated? =
      (m.statements.filterMap Statement.repeated?).map fun body =>
        block (body.any isCall) body := by
    rw [Module.statements_eq, Module.statements_eq, recorded,
      filterMap_statementsIn_block (fun _ => rfl), List.map_filterMap]
    exact congrArg (List.filterMap · _) (funext Statement.repeated?_statement)
  have hpasses : (m.functions.map Function.recorded).map passesRemade =
      m.functions.map passesRemade := by
    rw [List.map_map]
    exact List.map_congr_left fun f hf => passesRemade_recorded (h.name_ne f hf)
  have hany (fs : List Function) : fs.any passesRemade = (fs.map passesRemade).any id := by
    rw [List.any_map, Function.id_comp]
  rw [reusedValueOf, hrepeated, Module.functions_recorded, hany, hpasses, ← hany, List.any_map,
    reusedValueOf]
  simp only [Function.comp_def, remade_block]

end Features

namespace Order

open Features

theorem ofRecursion_recorded {m : Module} (h : LeavesRoutine m) :
    ofRecursion (recorded m) = ofRecursion m := by
  have hcalls : (m.functions.map Function.recorded).filter (fun f => !f.selfCalls.isEmpty) =
      (m.functions.filter fun f => !f.selfCalls.isEmpty).map Function.recorded := by
    rw [List.filter_map]
    refine congrArg (List.map Function.recorded) (List.filter_congr fun f hf => ?_)
    rw [Function.comp_apply, Function.selfCalls_recorded (h.name_ne f hf)]
  have hconverges (fs : List Function) (hfs : ∀ f ∈ fs, f ∈ m.functions) :
      (fs.map Function.recorded).all Function.converges = fs.all Function.converges := by
    rw [List.all_map, Bool.eq_iff_iff, List.all_eq_true, List.all_eq_true]
    refine forall₂_congr fun f hf => ?_
    rw [Function.comp_apply, Function.converges_recorded (h.name_ne f (hfs f hf))]
  unfold ofRecursion
  rw [Module.functions_recorded, hcalls]
  dsimp only
  rw [hconverges _ fun f hf => (List.mem_filter.mp hf).1, List.isEmpty_map]

theorem isUnbounded_statement (f : Features) (s : Statement) :
    isUnbounded f (statement s) = isUnbounded f s := by
  have hhalves := Statement.halves_statement s
  cases s with
  | whileLoop condition body =>
    rw [statement] at hhalves ⊢
    rw [isUnbounded, hhalves, isUnbounded]
  | _ => rfl

theorem raised_map_statement (o : Order) (f : Features) (loops : List Statement) :
    o.raised f (loops.map statement) = o.raised f loops := by
  simp only [raised, List.any_map, Function.comp_def, Statement.halves_statement,
    isUnbounded_statement]

/-- A program that records has the features of the program, unless that defines the routine, and with
any features the order of growth that it has with them. -/
theorem classify_recorded {m : Module} (h : LeavesRoutine m) (abnormal repeated : Nat)
    (f : Features) :
    Features.ofModule (recorded m) abnormal repeated = .ofModule m abnormal repeated ∧
      classify (recorded m) f = classify m f := by
  constructor
  · simp only [Features.ofModule, selfCallsOf_recorded h, collectionLoopOf_recorded,
      nestingOf_recorded, loopKindOf_recorded, nonScalarOf_recorded, reusedValueOf_recorded h]
  · rw [classify, ofRecursion_recorded h, Statement.filter_isLoop_recorded]
    simp only [raised_map_statement]
    rfl

/-- A recursive function with a loop in it, which collects, divides and waits for a comparison. -/
theorem classify_recorded_recursive :
    let collect : Statement := .assign (.name "s") (.list [])
    let half : Statement := .assign (.name "n") (.binary (.name "n") .divide (.integer "2"))
    let test : Statement :=
      .branch (.compare (.name "n") [(.relation .lt, .name "s")]) [.breakLoop] []
    let again : Statement := .expression (.call (.name "f") [.name "n"])
    let m : Module := ⟨[.function "f" ["n"]
      [collect, .whileLoop (.boolean true) [half, test], again]]⟩
    let f : Features := .ofModule m 0 0
    (recorded m).body = [.function "f" ["n"]
      [collect, call "s", .whileLoop (.boolean true) [half, call "n", test], again]] ∧
    LeavesRoutine m ∧ Features.ofModule (recorded m) 0 0 = f ∧
      classify (recorded m) f = classify m f := by
  intro collect half test again m f
  have hleaves : LeavesRoutine m := by
    intro parameters body
    simp [m, collect, half, test, again, Module.statements_eq, statementsIn_cons,
      Statement.inner, routine]
  exact ⟨rfl, hleaves, classify_recorded hleaves 0 0 f⟩

end Order

end Growth
