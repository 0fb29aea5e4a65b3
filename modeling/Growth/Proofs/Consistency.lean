import Growth.Proofs.CollectionLoop

/-! The features of a program fit together. Each is found by a pass of its own, and what the passes
see is told by the same statements, expressions and functions of the program. -/

namespace Growth

open Code

namespace Features

/-! ### Loops and collections -/

theorem loopKindOf_eq_zero_iff (m : Module) : loopKindOf m = 0 ↔ nestingOf m = 0 := by
  have hpos := nestingOf_pos_iff m
  have hnone : m.statements.filter Statement.isLoop = [] ↔ nestingOf m = 0 := by
    rw [List.filter_eq_nil_iff]
    constructor
    · intro hloops
      refine Nat.eq_zero_of_not_pos fun hdeep => ?_
      obtain ⟨s, hs, hloop⟩ := hpos.mp hdeep
      exact hloops s hs hloop
    · intro hzero s hs hloop
      exact Nat.ne_of_gt (hpos.mpr ⟨s, hs, hloop⟩) hzero
  rw [← hnone, loopKindOf]
  cases m.statements.filter Statement.isLoop with
  | nil => exact iff_of_true rfl rfl
  | cons s ss =>
    refine iff_of_false ?_ (List.cons_ne_nil s ss)
    rw [if_neg (by exact nofun)]
    split <;> decide

theorem isLoop_of_dependsOn {s : Statement} {n : String} (h : s.DependsOn n) : s.isLoop = true := by
  cases h with
  | traversal | comparison => rfl

/-- A collection that is assigned is an expression of the program. -/
theorem nonScalarOf_of_collects {m : Module} {s : Statement} {n : String} (hs : s ∈ m.statements)
    (h : s.Collects n) : nonScalarOf m = 1 := by
  have hany : m.expressions.any isCollection = true := by
    rw [List.any_eq_true]
    cases h with
    | list items => exact ⟨_, Module.mem_expressions_of_child hs (List.mem_singleton_self _), rfl⟩
    | set items => exact ⟨_, Module.mem_expressions_of_child hs (List.mem_singleton_self _), rfl⟩
  rw [nonScalarOf, hany]
  rfl

theorem collectionLoopOf_consistent {m : Module} (h : collectionLoopOf m = 1) :
    0 < nestingOf m ∧ nonScalarOf m = 1 := by
  rw [collectionLoopOf] at h
  obtain ⟨n, before, s, after, hstatements, hdepends, t, ht, hcollects⟩ :=
    (hasCollectionLoop_statements_iff m).mp (Bool.toNat_eq_one.mp h)
  have hs : s ∈ m.statements := by simp [hstatements]
  have ht : t ∈ m.statements := by simp [hstatements, ht]
  exact ⟨(nestingOf_pos_iff m).mpr ⟨s, hs, isLoop_of_dependsOn hdepends⟩,
    nonScalarOf_of_collects ht hcollects⟩

/-! ### Values made from former ones -/

theorem reusedValueOf_consistent {m : Module} (h : reusedValueOf m = 1) :
    0 < nestingOf m ∨ 0 < selfCallsOf m := by
  have hfound : ((m.statements.filterMap Statement.repeated?).any
      (fun body => !(remade body).isEmpty) || m.functions.any passesRemade) = true := by
    rw [reusedValueOf] at h
    exact Bool.toNat_eq_one.mp h
  rw [Bool.or_eq_true, List.any_eq_true, List.any_eq_true] at hfound
  obtain ⟨body, hbody, -⟩ | ⟨f, hf, hpasses⟩ := hfound
  · obtain ⟨s, hs, hrepeated⟩ := List.mem_filterMap.mp hbody
    exact .inl ((nestingOf_pos_iff m).mpr ⟨s, hs, Statement.isLoop_iff.mpr ⟨body, hrepeated⟩⟩)
  · obtain ⟨arguments, hcall, -⟩ := List.any_eq_true.mp hpasses
    exact .inr ((selfCallsOf_pos_iff m).mpr ⟨f, hf, List.ne_nil_of_mem hcall⟩)

end Features

namespace Order

/-- A program in which a function calls itself is polynomial at least. -/
theorem rank_classify_of_selfCalls {m : Module} (h : 0 < Features.selfCallsOf m) (repeated : Nat) :
    polynomial.rank ≤ (classify m (.ofModule m 0 repeated)).rank := by
  rw [classify_ofModule]
  by_cases htop : ofRecursion m = exponential ∨ hasUnboundedLoop m = true
  · rw [ofRules_top htop]
    decide
  · obtain ⟨hends, -⟩ := not_or.mp htop
    have hrecursion : ofRecursion m = polynomial := (ofRecursion_eq_polynomial_iff hends).mpr h
    exact Nat.le_of_eq (congrArg rank (ofRules_high htop (.inl hrecursion)).symm)

/-- A program with a loop is logarithmic at least. -/
theorem rank_classify_of_nesting {m : Module} (h : 0 < Features.nestingOf m) (repeated : Nat) :
    logarithmic.rank ≤ (classify m (.ofModule m 0 repeated)).rank := by
  rw [classify_ofModule, ofRules, if_pos h]
  split
  · decide
  split
  · decide
  split <;> decide

/-- The features of a program fit together. There is a kind of loops exactly if they have some
depth; a loop that depends on a collection is a loop, and the collection is in the program; a value
that is made from a former one is in a loop or in a function that calls itself. And if all runs came
to their normal end, calls of a function by itself make the program polynomial at least, and loops
make it logarithmic at least. -/
theorem ofModule_consistent (m : Module) (abnormal repeated : Nat) :
    let f := Features.ofModule m abnormal repeated
    (f.loopKind = 0 ↔ f.nesting = 0) ∧
    (f.collectionLoop = 1 → 1 ≤ f.nesting ∧ f.nonScalar = 1) ∧
    (f.reusedValue = 1 → 1 ≤ f.nesting ∨ 1 ≤ f.selfCalls) ∧
    (f.abnormalEnd = 0 → 1 ≤ f.selfCalls → polynomial.rank ≤ (classify m f).rank) ∧
    (f.abnormalEnd = 0 → 1 ≤ f.nesting → logarithmic.rank ≤ (classify m f).rank) := by
  intro f
  refine ⟨Features.loopKindOf_eq_zero_iff m, Features.collectionLoopOf_consistent,
    Features.reusedValueOf_consistent, ?_, ?_⟩
  · rintro (rfl : abnormal = 0) h
    exact rank_classify_of_selfCalls h repeated
  · rintro (rfl : abnormal = 0) h
    exact rank_classify_of_nesting h repeated

theorem ofModule_consistent_collected :
    let collect : Statement := .assign (.name "s") (.list [.integer "1"])
    let add : Statement := .assign (.name "n") (.binary (.name "n") .plus (.name "v"))
    let again : Statement := .expression (.call (.name "f") [.name "n"])
    let m : Module := ⟨[.function "f" ["n"] [collect, .forLoop "v" (.name "s") [add, again]]]⟩
    let f := Features.ofModule m 0 0
    (f.collectionLoop = 1 ∧ f.reusedValue = 1 ∧ f.selfCalls = 1) ∧
      f.loopKind ≠ 0 ∧ (1 ≤ f.nesting ∧ f.nonScalar = 1) ∧ (1 ≤ f.nesting ∨ 1 ≤ f.selfCalls) ∧
      polynomial.rank ≤ (classify m f).rank ∧ logarithmic.rank ≤ (classify m f).rank := by
  intro collect add again m f
  obtain ⟨hkind, hcollection, hreused, hcalls, hloops⟩ := ofModule_consistent m 0 0
  have hloop : f.collectionLoop = 1 := by decide +kernel
  have hreuse : f.reusedValue = 1 := by decide +kernel
  have hself : f.selfCalls = 1 := by decide +kernel
  obtain ⟨hnesting, hscalar⟩ := hcollection hloop
  have hdeep : f.nesting ≠ 0 := Nat.ne_of_gt hnesting
  exact ⟨⟨hloop, hreuse, hself⟩, mt hkind.mp hdeep, ⟨hnesting, hscalar⟩, hreused hreuse,
    hcalls rfl (Nat.le_of_eq hself.symm), hloops rfl hnesting⟩

end Order

end Growth
