import Growth.Proofs.Code.Walk

/-! What is inside a node, at any depth. The walk from a node visits exactly what is inside it and
the node itself, so the lists of statements and expressions that a program has hold what is inside
it. -/

namespace Growth.Code

namespace Node

/-- A node is the other one, or has it inside at some depth. -/
inductive Contains : Node → Node → Prop
  | self (n : Node) : Contains n n
  | inner {n c d : Node} (hc : c ∈ n.children) (h : Contains c d) : Contains n d

theorem Contains.trans {n c d : Node} (h : n.Contains c) (h' : c.Contains d) : n.Contains d := by
  induction h with
  | self => exact h'
  | inner hc _ ih => exact .inner hc (ih h')

theorem Contains.of_child {n c : Node} (hc : c ∈ n.children) : n.Contains c :=
  .inner hc (.self c)

theorem mem_walkFrom {stack : List Node} {d : Node} (h : d ∈ walkFrom stack) :
    ∃ n ∈ stack, n.Contains d := by
  induction stack using walkFrom.induct with
  | case1 =>
    rw [walkFrom] at h
    cases h
  | case2 n stack ih =>
    rw [walkFrom] at h
    rcases List.mem_cons.mp h with rfl | h
    · exact ⟨d, List.mem_cons_self .., .self d⟩
    obtain ⟨c, hc, hcontains⟩ := ih h
    rcases List.mem_append.mp hc with hc | hc
    · exact ⟨n, List.mem_cons_self .., .inner hc hcontains⟩
    · exact ⟨c, List.mem_cons_of_mem n hc, hcontains⟩

/-- A walk visits what is inside the node that it begins at. -/
theorem mem_walk_iff {n d : Node} : d ∈ n.walk ↔ n.Contains d := by
  constructor
  · intro h
    obtain ⟨c, hc, hcontains⟩ := mem_walkFrom h
    rwa [List.mem_singleton.mp hc] at hcontains
  · intro h
    induction h with
    | self n =>
      rw [walk_eq]
      exact List.mem_cons_self ..
    | @inner n c d hc _ ih =>
      rw [walk_eq]
      exact List.mem_cons_of_mem n (List.mem_flatMap.mpr ⟨c, hc, ih⟩)

theorem statement?_eq_some_iff {n : Node} {s : Statement} :
    n.statement? = some s ↔ n = .statement s := by
  cases n <;> simp [statement?]

theorem expression?_eq_some_iff {n : Node} {x : Expression} :
    n.expression? = some x ↔ n = .expression x := by
  cases n <;> simp [expression?]

end Node

/-! ### Statements and expressions inside others -/

theorem mem_nodesIn_iff {body : List Statement} {d : Node} :
    d ∈ nodesIn body ↔ ∃ s ∈ body, (Node.statement s).Contains d := by
  simp only [nodesIn, List.mem_flatMap, Node.mem_walk_iff]

theorem mem_statementsIn_iff {body : List Statement} {t : Statement} :
    t ∈ statementsIn body ↔ ∃ s ∈ body, (Node.statement s).Contains (.statement t) := by
  simp only [statementsIn, List.mem_filterMap, Node.statement?_eq_some_iff, exists_eq_right,
    mem_nodesIn_iff]

theorem Expression.mem_within_iff {x y : Expression} :
    y ∈ x.within ↔ (Node.expression x).Contains (.expression y) := by
  simp only [within, List.mem_filterMap, Node.expression?_eq_some_iff, exists_eq_right,
    Node.mem_walk_iff]

namespace Module

variable {m : Module}

theorem mem_statements_iff {s : Statement} :
    s ∈ m.statements ↔ (Node.module m).Contains (.statement s) := by
  simp only [statements, walk, List.mem_filterMap, Node.statement?_eq_some_iff, exists_eq_right,
    Node.mem_walk_iff]

theorem mem_expressions_iff {x : Expression} :
    x ∈ m.expressions ↔ (Node.module m).Contains (.expression x) := by
  simp only [expressions, walk, List.mem_filterMap, Node.expression?_eq_some_iff,
    exists_eq_right, Node.mem_walk_iff]

/-- What a statement of a program is made from is an expression of the program. -/
theorem mem_expressions_of_child {s : Statement} {x : Expression} (hs : s ∈ m.statements)
    (hx : .expression x ∈ s.children) : x ∈ m.expressions :=
  mem_expressions_iff.mpr
    ((mem_statements_iff.mp hs).trans (.of_child (n := .statement s) hx))

end Module

/-! ### Loops -/

namespace Statement

theorem isLoop_iff {s : Statement} : s.isLoop = true ↔ ∃ body, s.repeated? = some body := by
  cases s <;> simp [isLoop, repeated?]

theorem inner_of_repeated {s : Statement} {body : List Statement} (h : s.repeated? = some body) :
    s.inner = body := by
  cases s with
  | whileLoop | forLoop => exact Option.some.inj h
  | _ => cases h

end Statement

end Growth.Code
