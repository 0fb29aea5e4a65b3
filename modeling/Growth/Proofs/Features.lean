import Growth.Proofs.Order

/-! What the features of a program say of its statements and functions: which loops there are, and
which functions call themselves. -/

namespace Growth.Features

open Code

/-! ### Loops -/

theorem max_pos_iff (n k : Nat) : 0 < max n k ↔ 0 < n ∨ 0 < k := by
  omega

mutual

/-- A statement has loops inside one another exactly if it is a loop or has one in it. -/
theorem depth_pos_iff : (s : Statement) →
    (0 < depth s ↔ s.isLoop = true ∨ (statementsIn s.inner).any Statement.isLoop = true)
  | .whileLoop _ _ | .forLoop _ _ _ => by simp [depth, Statement.isLoop]
  | .function _ _ body => by
    rw [depth, depths_pos_iff body]
    simp [Statement.isLoop, Statement.inner]
  | .branch _ body other => by
    rw [depth, max_pos_iff, depths_pos_iff body, depths_pos_iff other]
    simp [Statement.isLoop, Statement.inner, statementsIn_append]
  | .assign _ _ | .update _ _ _ | .result _ | .breakLoop | .continueLoop | .pass
  | .expression _ => by
    simp [depth, Statement.isLoop, Statement.inner]

/-- Statements have loops inside one another exactly if there is a loop among them or in them. -/
theorem depths_pos_iff :
    (ss : List Statement) → (0 < depths ss ↔ (statementsIn ss).any Statement.isLoop = true)
  | [] => by simp [depths]
  | s :: ss => by
    rw [depths, max_pos_iff, depth_pos_iff s, depths_pos_iff ss, statementsIn_cons, List.any_cons,
      List.any_append, Bool.or_eq_true, Bool.or_eq_true, or_assoc]

end

theorem capped_pos_iff (n : Nat) : 0 < capped n ↔ 0 < n := by
  unfold capped
  omega

theorem nestingOf_pos_iff (m : Module) :
    0 < nestingOf m ↔ ∃ s ∈ m.statements, s.isLoop = true := by
  rw [nestingOf, capped_pos_iff, depths_pos_iff, List.any_eq_true, Module.statements_eq]

/-! ### Calls of functions by themselves -/

theorem max?_pos_iff (ns : List Nat) : 0 < ns.max?.getD 0 ↔ ∃ n ∈ ns, 0 < n := by
  cases h : ns.max? with
  | none =>
    rw [List.max?_eq_none_iff] at h
    simp [h]
  | some most =>
    obtain ⟨hmem, hmost⟩ := List.max?_eq_some_iff.mp h
    refine ⟨fun hpos => ⟨most, hmem, hpos⟩, ?_⟩
    rintro ⟨n, hn, hpos⟩
    exact Nat.lt_of_lt_of_le hpos (hmost n hn)

theorem selfCallsOf_pos_iff (m : Module) :
    0 < selfCallsOf m ↔ ∃ f ∈ m.functions, f.selfCalls ≠ [] := by
  rw [selfCallsOf, capped_pos_iff, max?_pos_iff]
  constructor
  · rintro ⟨n, hn, hpos⟩
    obtain ⟨f, hf, rfl⟩ := List.mem_map.mp hn
    exact ⟨f, hf, List.length_pos_iff.mp hpos⟩
  · rintro ⟨f, hf, hne⟩
    exact ⟨_, List.mem_map.mpr ⟨f, hf, rfl⟩, List.length_pos_iff.mpr hne⟩

end Growth.Features
