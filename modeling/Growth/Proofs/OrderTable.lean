import Growth.Proofs.Features

/-! The order of growth of a program, read from a table: by whether something in it is bounded by
nothing, whether it calls itself, how deep its loops are, and whether one of them halves. -/

namespace Growth

open Code

namespace Code

theorem Expression.name?_eq_some_iff {x : Expression} {n : String} :
    x.name? = some n ↔ x = .name n := by
  cases x <;> simp [Expression.name?]

/-! ### Functions that divide -/

namespace Function

variable (f : Function)

/-- An expression has a division with a parameter of the function in what is divided. -/
def Divides (x : Expression) : Prop :=
  ∃ left op right, .binary left op right ∈ x.within ∧ op.divides = true ∧
    ∃ p ∈ f.parameters, left.mentions p = true

theorem dividesParameter_iff (x : Expression) : f.dividesParameter x = true ↔ f.Divides x := by
  unfold dividesParameter
  rw [List.any_eq_true]
  constructor
  · rintro ⟨y, hy, hdivides⟩
    cases y with
    | binary left op right =>
      rw [Bool.and_eq_true, List.any_eq_true] at hdivides
      exact ⟨left, op, right, hy, hdivides⟩
    | _ => cases hdivides
  · rintro ⟨left, op, right, hy, hop, hparameter⟩
    refine ⟨_, hy, ?_⟩
    rw [Bool.and_eq_true, List.any_eq_true]
    exact ⟨hop, hparameter⟩

theorem converges_iff : f.converges = true ↔
    ∀ arguments ∈ f.selfCalls, ∃ x ∈ arguments, f.Divides x := by
  simp only [converges, List.all_eq_true, List.any_eq_true, dividesParameter_iff]

theorem converges_of_not_selfCalls (h : f.selfCalls = []) : f.converges = true := by
  rw [converges, h, List.all_nil]

end Function

/-! ### Loops that halve -/

namespace Statement

/-- A statement that divides a name: `x = x / …` or `x /= …`. -/
inductive Divides (n : String) : Statement → Prop
  | assign {op : Operator} {right : Expression} (h : op.divides = true) :
    Divides n (.assign (.name n) (.binary (.name n) op right))
  | update {op : Operator} {value : Expression} (h : op.divides = true) :
    Divides n (.update (.name n) op value)

theorem divided?_eq_some_iff {s : Statement} {n : String} :
    s.divided? = some n ↔ s.Divides n := by
  constructor
  · intro h
    unfold divided? at h
    split at h
    · split at h
      · rename_i hop
        cases h
        rw [Bool.and_eq_true, beq_iff_eq, Expression.name?_eq_some_iff] at hop
        obtain ⟨hop, rfl⟩ := hop
        exact .assign hop
      · cases h
    · split at h
      · rename_i hop
        cases h
        exact .update hop
      · cases h
    · cases h
  · rintro (h | h) <;> simp [divided?, h, Expression.name?]

/-- A loop with a condition that ends on a comparison of a name, which its body divides. -/
def Halves (s : Statement) : Prop :=
  ∃ condition body n, s = .whileLoop condition body ∧
    (∃ x ∈ s.exitConditions, .name n ∈ x.compared) ∧ ∃ t ∈ statementsIn body, t.Divides n

theorem halves_iff {s : Statement} : s.halves = true ↔ s.Halves := by
  cases s with
  | whileLoop condition body =>
    simp only [halves, Halves, List.any_eq_true, List.mem_filterMap, List.contains_iff_mem,
      List.mem_flatMap, divided?_eq_some_iff, Expression.name?_eq_some_iff]
    constructor
    · rintro ⟨n, ⟨t, ht, hdivides⟩, x, ⟨c, hc, hx⟩, rfl⟩
      exact ⟨_, _, n, rfl, ⟨c, hc, hx⟩, t, ht, hdivides⟩
    · rintro ⟨_, _, n, ⟨⟩, ⟨c, hc, hx⟩, t, ht, hdivides⟩
      exact ⟨n, ⟨t, ht, hdivides⟩, _, ⟨c, hc, hx⟩, rfl⟩
  | _ => simp [halves, Halves]

instance (s : Statement) : Decidable s.Halves :=
  decidable_of_iff _ halves_iff

end Statement

end Code

namespace Order

/-! ### What nothing bounds -/

/-- Nothing bounds the work of a program: a call of a function by itself divides none of its
parameters, a loop goes through something else than a range, or, where no loop depends on a
collection, a loop with a condition does not halve. -/
inductive Boundless (m : Module) : Prop
  | recursion {f : Function} {arguments : List Expression} (hf : f ∈ m.functions)
    (hcall : arguments ∈ f.selfCalls) (hdivides : ∀ x ∈ arguments, ¬f.Divides x)
  | traversal {counter : String} {iterable : Expression} {body : List Statement}
    (hloop : .forLoop counter iterable body ∈ m.statements)
    (hrange : iterable.callee? ≠ some "range")
  | waiting {condition : Expression} {body : List Statement}
    (huntied : Features.collectionLoopOf m = 0)
    (hloop : .whileLoop condition body ∈ m.statements)
    (hslow : ¬(Statement.whileLoop condition body).Halves)

/-- The order that recursion gives, by the calls of functions by themselves. -/
theorem ofRecursion_eq (m : Module) : ofRecursion m =
    if Features.selfCallsOf m = 0 then constant
    else if m.functions.all Function.converges then polynomial
    else exponential := by
  have hempty : (m.functions.filter fun f => !f.selfCalls.isEmpty).isEmpty = true ↔
      Features.selfCallsOf m = 0 := by
    have hzero : Features.selfCallsOf m = 0 ↔ ¬0 < Features.selfCallsOf m := by omega
    rw [hzero, Features.selfCallsOf_pos_iff]
    simp
  -- The functions that do not call themselves converge, so they may be left in.
  have hall : (m.functions.filter fun f => !f.selfCalls.isEmpty).all Function.converges =
      m.functions.all Function.converges := by
    rw [List.all_filter]
    refine congrArg (List.all m.functions) (funext fun f => ?_)
    cases h : f.selfCalls with
    | nil => rw [f.converges_of_not_selfCalls h]; rfl
    | cons => rfl
  unfold ofRecursion
  dsimp only
  rw [hall]
  simp only [hempty]

/-- Recursion need not come to an end exactly if some function calls itself without dividing. -/
theorem ofRecursion_eq_exponential_iff (m : Module) : ofRecursion m = exponential ↔
    ∃ f ∈ m.functions, ∃ arguments ∈ f.selfCalls, ∀ x ∈ arguments, ¬f.Divides x := by
  rw [ofRecursion_eq]
  constructor
  · intro h
    have hdiverges : ¬m.functions.all Function.converges = true := by
      intro hall
      rw [if_pos hall] at h
      split at h <;> cases h
    simpa [Function.converges_iff] using hdiverges
  · rintro ⟨f, hf, arguments, hcall, hdivides⟩
    have hcalls : 0 < Features.selfCallsOf m :=
      (Features.selfCallsOf_pos_iff m).mpr ⟨f, hf, List.ne_nil_of_mem hcall⟩
    have hdiverges : ¬m.functions.all Function.converges = true := by
      intro hall
      obtain ⟨x, hx, hdivided⟩ :=
        f.converges_iff.mp (List.all_eq_true.mp hall f hf) arguments hcall
      exact hdivides x hx hdivided
    rw [if_neg (Nat.ne_of_gt hcalls), if_neg hdiverges]

/-- Recursion that comes to an end makes a program polynomial. -/
theorem ofRecursion_eq_polynomial_iff {m : Module} (h : ofRecursion m ≠ exponential) :
    ofRecursion m = polynomial ↔ 0 < Features.selfCallsOf m := by
  rw [ofRecursion_eq] at h ⊢
  by_cases hcalls : Features.selfCallsOf m = 0
  · simp [hcalls]
  rw [if_neg hcalls] at h ⊢
  by_cases hall : m.functions.all Function.converges = true
  · simp [hall, Nat.pos_of_ne_zero hcalls]
  · exact absurd (if_neg hall) h

theorem any_traverses_iff (m : Module) : m.statements.any Statement.traverses = true ↔
    ∃ counter iterable body, .forLoop counter iterable body ∈ m.statements ∧
      iterable.callee? ≠ some "range" := by
  rw [List.any_eq_true]
  constructor
  · rintro ⟨s, hs, htraverses⟩
    cases s with
    | forLoop counter iterable body =>
      refine ⟨counter, iterable, body, hs, ?_⟩
      simpa [Statement.traverses, Statement.counts] using htraverses
    | _ => simp [Statement.traverses] at htraverses
  · rintro ⟨counter, iterable, body, hs, hrange⟩
    exact ⟨_, hs, by simpa [Statement.traverses, Statement.counts] using hrange⟩

theorem any_waits_iff (m : Module) : m.statements.any Statement.waits = true ↔
    ∃ condition body, .whileLoop condition body ∈ m.statements ∧
      ¬(Statement.whileLoop condition body).Halves := by
  rw [List.any_eq_true]
  constructor
  · rintro ⟨s, hs, hwaits⟩
    cases s with
    | whileLoop condition body =>
      refine ⟨condition, body, hs, ?_⟩
      simpa [Statement.waits, ← Statement.halves_iff] using hwaits
    | _ => simp [Statement.waits] at hwaits
  · rintro ⟨condition, body, hs, hslow⟩
    exact ⟨_, hs, by simpa [Statement.waits, ← Statement.halves_iff] using hslow⟩

theorem boundless_iff (m : Module) :
    (ofRecursion m = exponential ∨ hasUnboundedLoop m = true) ↔ Boundless m := by
  rw [ofRecursion_eq_exponential_iff, hasUnboundedLoop, Bool.or_eq_true, Bool.and_eq_true,
    beq_iff_eq, any_traverses_iff, any_waits_iff]
  constructor
  · rintro (⟨f, hf, arguments, hcall, hdivides⟩ | ⟨_, _, _, hloop, hrange⟩ |
      ⟨huntied, _, _, hloop, hslow⟩)
    · exact .recursion hf hcall hdivides
    · exact .traversal hloop hrange
    · exact .waiting huntied hloop hslow
  · rintro (⟨hf, hcall, hdivides⟩ | ⟨hloop, hrange⟩ | ⟨huntied, hloop, hslow⟩)
    · exact .inl ⟨_, hf, _, hcall, hdivides⟩
    · exact .inr (.inl ⟨_, _, _, hloop, hrange⟩)
    · exact .inr (.inr ⟨huntied, _, _, hloop, hslow⟩)

instance (m : Module) : Decidable (Boundless m) :=
  decidable_of_iff _ (boundless_iff m)

/-! ### The table -/

theorem nestingOf_pos_of_halves {m : Module} (h : ∃ s ∈ m.statements, s.Halves) :
    0 < Features.nestingOf m := by
  obtain ⟨s, hs, hhalves⟩ := h
  rw [Features.nestingOf_pos_iff]
  exact ⟨s, hs, Statement.isLoop_of_halves (Statement.halves_iff.mpr hhalves)⟩

/-- The order of growth of a program by the first line that fits it. Whatever the program, it is
exponential if a run came to no normal end. -/
theorem classify_table (m : Module) (repeated : Nat) :
    classify m (.ofModule m 0 repeated) =
      (if Boundless m then exponential
      else if 0 < Features.selfCallsOf m ∨ 1 < Features.nestingOf m then polynomial
      else if Features.nestingOf m = 1 ∧ ∃ s ∈ m.statements, s.Halves then logarithmic
      else if Features.nestingOf m = 1 then linear
      else constant) ∧
    classify m (.ofModule m 1 repeated) = exponential := by
  refine ⟨?_, rfl⟩
  have hhalves : m.statements.any Statement.halves = true ↔ ∃ s ∈ m.statements, s.Halves := by
    simp only [List.any_eq_true, Statement.halves_iff]
  have hloop := @nestingOf_pos_of_halves m
  rw [classify_ofModule, ofRules]
  simp only [boundless_iff, hhalves]
  by_cases hbounded : Boundless m
  · rw [if_pos hbounded, if_pos hbounded]
  rw [if_neg hbounded, if_neg hbounded]
  have hends : ofRecursion m ≠ exponential :=
    fun h => hbounded ((boundless_iff m).mp (.inl h))
  simp only [ofRecursion_eq_polynomial_iff hends]
  by_cases hpolynomial : 0 < Features.selfCallsOf m ∨ 1 < Features.nestingOf m
  · rw [if_pos hpolynomial, if_pos hpolynomial]
  rw [if_neg hpolynomial, if_neg hpolynomial]
  -- The rules ask for a loop and the table for a depth of 1: here these are the same.
  have hone : 0 < Features.nestingOf m ↔ Features.nestingOf m = 1 := by omega
  simp only [hone]
  -- The rules ask for no loop where one halves, and the table does.
  by_cases hhalving : ∃ s ∈ m.statements, s.Halves
  · rw [if_pos hhalving, if_pos ⟨hone.mp (hloop hhalving), hhalving⟩]
  · rw [if_neg hhalving, if_neg (not_and_of_not_right _ hhalving)]

end Order

end Growth
