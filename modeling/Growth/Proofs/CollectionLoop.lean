import Growth.Proofs.Code.Containment
import Growth.Proofs.OrderTable

/-! When a loop depends on a collection. A pass over the statements that gathers the names of
collections on its way, and stops at the first loop that regards one of them, finds the same as a
look at all pairs of statements, one before the other. -/

namespace Growth

open Code

namespace Code

/-! ### Operands and conditions -/

/-- An operand that is the name, an item of it, or its length. -/
inductive Expression.Regards (n : String) : Expression → Prop
  | itself : Regards n (.name n)
  | item (index : Expression) : Regards n (.item (.name n) index)
  | length : Regards n (.call (.name "len") [.name n])

/-- The expression has, at any depth, a comparison with the operand. -/
def Expression.Compares (x operand : Expression) : Prop :=
  ∃ first others, (Node.expression x).Contains (.expression (.compare first others)) ∧
    operand ∈ first :: others.map Prod.snd

theorem Expression.mem_compared_iff {x operand : Expression} :
    operand ∈ x.compared ↔ x.Compares operand := by
  unfold compared Compares
  rw [List.mem_flatMap]
  constructor
  · rintro ⟨y, hy, hoperand⟩
    cases y with
    | compare first others => exact ⟨first, others, mem_within_iff.mp hy, hoperand⟩
    | _ => cases hoperand
  · rintro ⟨first, others, hcontains, hoperand⟩
    exact ⟨_, mem_within_iff.mpr hcontains, hoperand⟩

namespace Statement

/-- A branch on the condition that has a way out of a loop in it, at any depth. -/
inductive LeavesIf (condition : Expression) : Statement → Prop
  | branch {body other : List Statement}
      (h : (Node.statement (.branch condition body other)).Contains (.statement .breakLoop)) :
      LeavesIf condition (.branch condition body other)

theorem leaves_iff {s : Statement} :
    s.leaves = true ↔ (Node.statement s).Contains (.statement .breakLoop) := by
  have hmem : Statement.breakLoop ∈ statementsIn [s] ↔ _ := mem_statementsIn_iff
  simp only [List.mem_singleton, exists_eq_left] at hmem
  rw [leaves, List.any_eq_true, ← hmem]
  constructor
  · rintro ⟨t, ht, hbreak⟩
    cases t with
    | breakLoop => exact ht
    | _ => cases hbreak
  · exact fun h => ⟨_, h, rfl⟩

theorem leavingCondition?_eq_some_iff {s : Statement} {condition : Expression} :
    s.leavingCondition? = some condition ↔ s.LeavesIf condition := by
  constructor
  · intro h
    cases s with
    | branch c body other =>
      simp only [leavingCondition?] at h
      split at h
      · rename_i hleaves
        cases h
        exact .branch (leaves_iff.mp hleaves)
      · cases h
    | _ => cases h
  · rintro ⟨h⟩
    exact if_pos (leaves_iff.mpr h)

/-- A loop with a condition ends on it, unless it is the literal that is always true, and on the
condition of the first branch in its body that has a way out. -/
inductive EndsOn (condition : Expression) : Statement → Prop
  | test {body : List Statement} (h : condition ≠ .boolean true) :
      EndsOn condition (.whileLoop condition body)
  | leave {test : Expression} {body before after : List Statement} {s : Statement}
      (hbody : statementsIn body = before ++ s :: after) (hs : s.LeavesIf condition)
      (hfirst : ∀ t ∈ before, ∀ c, ¬t.LeavesIf c) : EndsOn condition (.whileLoop test body)

theorem mem_breakCondition?_iff {test condition : Expression} {body : List Statement} :
    condition ∈ (whileLoop test body).breakCondition?.toList ↔
      ∃ before s after, statementsIn body = before ++ s :: after ∧ s.LeavesIf condition ∧
        ∀ t ∈ before, ∀ c, ¬t.LeavesIf c := by
  rw [Option.mem_toList, breakCondition?, List.findSome?_eq_some_iff]
  simp only [leavingCondition?_eq_some_iff, Option.eq_none_iff_forall_ne_some, ne_eq]

theorem mem_exitConditions_whileLoop_iff {test condition : Expression} {body : List Statement} :
    condition ∈ (whileLoop test body).exitConditions ↔
      (condition = test ∧ test ≠ .boolean true) ∨
        condition ∈ (whileLoop test body).breakCondition?.toList := by
  by_cases htest : test = .boolean true
  · subst htest
    simp [exitConditions]
  · rw [exitConditions, List.mem_cons]
    · simp [htest]
    · exact htest

theorem mem_exitConditions_iff {s : Statement} {condition : Expression} :
    condition ∈ s.exitConditions ↔ s.EndsOn condition := by
  constructor
  · intro h
    cases s with
    | whileLoop test body =>
      rw [mem_exitConditions_whileLoop_iff, mem_breakCondition?_iff] at h
      obtain ⟨rfl, htest⟩ | ⟨before, s, after, hbody, hs, hfirst⟩ := h
      · exact .test htest
      · exact .leave hbody hs hfirst
    | _ => cases h
  · rintro (htest | ⟨hbody, hs, hfirst⟩)
    · exact mem_exitConditions_whileLoop_iff.mpr (.inl ⟨rfl, htest⟩)
    · rw [mem_exitConditions_whileLoop_iff, mem_breakCondition?_iff]
      exact .inr ⟨_, _, _, hbody, hs, hfirst⟩

/-! ### Loops and collections -/

/-- A loop that goes through the name, or that ends on a comparison with it, an item of it or its
length. -/
inductive DependsOn (n : String) : Statement → Prop
  | traversal (counter : String) (body : List Statement) :
      DependsOn n (.forLoop counter (.name n) body)
  | comparison {test condition operand : Expression} {body : List Statement}
      (hends : (Statement.whileLoop test body).EndsOn condition)
      (hcompares : condition.Compares operand) (hoperand : operand.Regards n) :
      DependsOn n (.whileLoop test body)

/-- An assignment of a list or a set that is written out to the plain name. -/
inductive Collects (n : String) : Statement → Prop
  | list (items : List Expression) : Collects n (.assign (.name n) (.list items))
  | set (items : List Expression) : Collects n (.assign (.name n) (.set items))

end Statement

/-- A loop of the program depends on a name to which a collection has been assigned before the loop,
in the order of the text. -/
def Module.DependsOnCollection (m : Module) : Prop :=
  ∃ n before s after, m.statements = before ++ s :: after ∧ s.DependsOn n ∧
    ∃ t ∈ before, t.Collects n

end Code

namespace Features

open Code

theorem isAmong_iff {names : List String} {x : Expression} :
    isAmong names x = true ↔ ∃ n ∈ names, x = .name n := by
  cases x <;> simp [isAmong, Expression.name?]

theorem regards_iff {names : List String} {x : Expression} :
    regards names x = true ↔ ∃ n ∈ names, x.Regards n := by
  constructor
  · intro h
    unfold regards at h
    split at h
    · obtain ⟨n, hn, rfl⟩ := isAmong_iff.mp h
      exact ⟨n, hn, .item _⟩
    · obtain ⟨n, hn, rfl⟩ := isAmong_iff.mp h
      exact ⟨n, hn, .length⟩
    · obtain ⟨n, hn, rfl⟩ := isAmong_iff.mp h
      exact ⟨n, hn, .itself⟩
  · rintro ⟨n, hn, hregards⟩
    have hname : isAmong names (.name n) = true := isAmong_iff.mpr ⟨n, hn, rfl⟩
    cases hregards with
    | itself | item | length => exact hname

theorem dependsOn_iff {names : List String} {s : Statement} :
    dependsOn names s = true ↔ ∃ n ∈ names, s.DependsOn n := by
  have hends : (s.exitConditions.flatMap Expression.compared).any (regards names) = true ↔
      ∃ n ∈ names, ∃ condition operand, s.EndsOn condition ∧ condition.Compares operand ∧
        operand.Regards n := by
    simp only [List.any_eq_true, List.mem_flatMap, Statement.mem_exitConditions_iff,
      Expression.mem_compared_iff, regards_iff]
    constructor
    · rintro ⟨operand, ⟨condition, hends, hcompares⟩, n, hn, hoperand⟩
      exact ⟨n, hn, condition, operand, hends, hcompares, hoperand⟩
    · rintro ⟨n, hn, condition, operand, hends, hcompares, hoperand⟩
      exact ⟨operand, ⟨condition, hends, hcompares⟩, n, hn, hoperand⟩
  constructor
  · intro h
    unfold dependsOn at h
    split at h
    · obtain ⟨n, hn, rfl⟩ := isAmong_iff.mp h
      exact ⟨n, hn, .traversal _ _⟩
    · obtain ⟨n, hn, condition, operand, hends, hcompares, hoperand⟩ := hends.mp h
      -- only a loop with a condition ends on something
      cases s with
      | whileLoop test body => exact ⟨n, hn, .comparison hends hcompares hoperand⟩
      | _ => cases hends
  · rintro ⟨n, hn, hdepends⟩
    cases hdepends with
    | traversal => exact isAmong_iff.mpr ⟨n, hn, rfl⟩
    | comparison hloop hcompares hoperand =>
      exact hends.mpr ⟨n, hn, _, _, hloop, hcompares, hoperand⟩

theorem collected?_eq_some_iff {s : Statement} {n : String} :
    collected? s = some n ↔ s.Collects n := by
  constructor
  · intro h
    unfold collected? at h
    split at h
    · rename_i value
      cases value with
      | list items =>
        cases h
        exact .list items
      | set items =>
        cases h
        exact .set items
      | _ => cases h
    · cases h
  · rintro (items | items) <;> rfl

/-- The pass finds a loop that depends on a name it began with, or on one to which a collection was
assigned before the loop. -/
theorem hasCollectionLoop_iff {names : List String} {ss : List Statement} :
    hasCollectionLoop names ss = true ↔ ∃ n before s after, ss = before ++ s :: after ∧
      s.DependsOn n ∧ (n ∈ names ∨ ∃ t ∈ before, t.Collects n) := by
  induction ss generalizing names with
  | nil => simp [hasCollectionLoop]
  | cons s ss ih =>
    rw [hasCollectionLoop, Bool.or_eq_true, dependsOn_iff, ih]
    constructor
    · rintro (⟨n, hn, hs⟩ | ⟨n, before, t, after, rfl, ht, hn⟩)
      · exact ⟨n, [], s, ss, rfl, hs, .inl hn⟩
      · refine ⟨n, s :: before, t, after, rfl, ht, ?_⟩
        rw [List.mem_append, Option.mem_toList, collected?_eq_some_iff] at hn
        rcases hn with (hn | hn) | ⟨u, hu, hcollects⟩
        · exact .inr ⟨s, List.mem_cons_self .., hn⟩
        · exact .inl hn
        · exact .inr ⟨u, List.mem_cons_of_mem s hu, hcollects⟩
    · rintro ⟨n, before, t, after, hsplit, ht, hn⟩
      cases before with
      | nil =>
        obtain ⟨rfl, rfl⟩ := List.cons.inj hsplit
        obtain hn | ⟨u, hu, -⟩ := hn
        · exact .inl ⟨n, hn, ht⟩
        · cases hu
      | cons s' before =>
        obtain ⟨rfl, rfl⟩ := List.cons.inj hsplit
        refine .inr ⟨n, before, t, after, rfl, ht, ?_⟩
        rw [List.mem_append, Option.mem_toList, collected?_eq_some_iff]
        obtain hn | ⟨u, hu, hcollects⟩ := hn
        · exact .inl (.inr hn)
        · rcases List.mem_cons.mp hu with rfl | hu
          · exact .inl (.inl hcollects)
          · exact .inr ⟨u, hu, hcollects⟩

theorem hasCollectionLoop_statements_iff (m : Module) :
    hasCollectionLoop [] m.statements = true ↔ m.DependsOnCollection := by
  rw [hasCollectionLoop_iff]
  simp only [List.not_mem_nil, false_or, Module.DependsOnCollection]

instance (m : Module) : Decidable m.DependsOnCollection :=
  decidable_of_iff _ (hasCollectionLoop_statements_iff m)

/-- Whether a loop depends on a collection, told by the places of the statements: the feature is 1
if some loop depends on a name to which a collection is assigned before it, and 0 if none does. -/
theorem collectionLoopOf_iff (m : Module) :
    (collectionLoopOf m = 1 ↔ m.DependsOnCollection) ∧
      (collectionLoopOf m = 0 ↔ ¬m.DependsOnCollection) := by
  rw [← hasCollectionLoop_statements_iff, collectionLoopOf]
  cases hasCollectionLoop [] m.statements <;> simp

/-- A collection that is assigned inside the loop comes too late. -/
example : ¬Module.DependsOnCollection
    ⟨[.whileLoop (.compare (.name "i") [(.relation .lt, .call (.name "len") [.name "s"])])
      [.assign (.name "s") (.list [])]]⟩ := by decide +kernel

end Features

end Growth
