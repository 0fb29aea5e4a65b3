import Growth.Code.Loop

/-! The walk over a program goes through its statements one after the other, so what it visits of
the first of them does not depend on what follows. -/

namespace Growth.Code

namespace Node

theorem walkFrom_append (ns ns' : List Node) :
    walkFrom (ns ++ ns') = walkFrom ns ++ walkFrom ns' := by
  induction ns using walkFrom.induct with
  | case1 => rw [List.nil_append, walkFrom, List.nil_append]
  | case2 n stack ih =>
    rw [List.cons_append, walkFrom, walkFrom, ← List.append_assoc, ih, List.cons_append]

theorem walkFrom_eq_flatMap (ns : List Node) : walkFrom ns = ns.flatMap walk := by
  induction ns with
  | nil => rw [walkFrom, List.flatMap_nil]
  | cons n ns ih =>
    have hsplit : n :: ns = [n] ++ ns := rfl
    rw [hsplit, walkFrom_append, ih, List.flatMap_append, List.flatMap_singleton, walk]

/-- The walk from a node visits it and then what the walks from its children visit. -/
theorem walk_eq (n : Node) : n.walk = n :: n.children.flatMap walk := by
  rw [walk, walkFrom, List.append_nil, walkFrom_eq_flatMap]

end Node

theorem nodesIn_eq (body : List Statement) :
    nodesIn body = (body.map Node.statement).flatMap Node.walk :=
  (List.flatMap_map ..).symm

theorem nodesIn_cons (s : Statement) (body : List Statement) :
    nodesIn (s :: body) = (Node.statement s).walk ++ nodesIn body :=
  List.flatMap_cons ..

theorem nodesIn_append (body body' : List Statement) :
    nodesIn (body ++ body') = nodesIn body ++ nodesIn body' :=
  List.flatMap_append

theorem statementsIn_append (body body' : List Statement) :
    statementsIn (body ++ body') = statementsIn body ++ statementsIn body' := by
  rw [statementsIn, nodesIn_append, List.filterMap_append]
  rfl

/-- The statements directly inside a statement. -/
def Statement.inner : Statement → List Statement
  | function _ _ body | whileLoop _ body | forLoop _ _ body => body
  | branch _ body other => body ++ other
  | _ => []

/-- What is directly inside a statement are expressions and then statements. -/
theorem Statement.exists_children (s : Statement) :
    ∃ xs : List Expression, s.children = xs.map .expression ++ s.inner.map .statement := by
  cases s with
  | function _ _ body => exact ⟨[], rfl⟩
  | assign target value => exact ⟨_, (List.append_nil _).symm⟩
  | update target _ value => exact ⟨_, (List.append_nil _).symm⟩
  | whileLoop condition body => exact ⟨[condition], rfl⟩
  | forLoop _ iterable body => exact ⟨[iterable], rfl⟩
  | branch condition body other => exact ⟨[condition], rfl⟩
  | result value =>
    cases value with
    | none => exact ⟨[], rfl⟩
    | some value => exact ⟨[value], rfl⟩
  | expression value => exact ⟨[value], rfl⟩
  | breakLoop | continueLoop | pass => exact ⟨[], rfl⟩

/-- All that is inside an expression are expressions. -/
theorem Node.expression_of_mem_walkFrom {ns : List Node} (h : ∀ n ∈ ns, ∃ x, n = .expression x) :
    ∀ n ∈ walkFrom ns, ∃ x, n = .expression x := by
  induction ns using walkFrom.induct with
  | case1 =>
    rw [walkFrom]
    exact nofun
  | case2 n stack ih =>
    obtain ⟨⟨x, rfl⟩, hstack⟩ := List.forall_mem_cons.mp h
    rw [walkFrom]
    refine List.forall_mem_cons.mpr ⟨⟨x, rfl⟩, ih (List.forall_mem_append.mpr ⟨?_, hstack⟩)⟩
    exact List.forall_mem_map.mpr fun y _ => ⟨y, rfl⟩

theorem Node.expression_of_mem_walk (x : Expression) :
    ∀ n ∈ (Node.expression x).walk, ∃ y, n = .expression y :=
  expression_of_mem_walkFrom (List.forall_mem_singleton.mpr ⟨x, rfl⟩)

/-- No statement is inside an expression. -/
theorem Node.walkFrom_expressions {ns : List Node} (h : ∀ n ∈ ns, ∃ x, n = .expression x) :
    (walkFrom ns).filterMap Node.statement? = [] :=
  List.filterMap_eq_nil_iff.mpr fun n hn => by
    obtain ⟨x, rfl⟩ := expression_of_mem_walkFrom h n hn
    rfl

@[simp] theorem statementsIn_nil : statementsIn [] = [] := rfl

/-- A statement comes before those inside it, and these before those that follow it. -/
theorem statementsIn_cons (s : Statement) (body : List Statement) :
    statementsIn (s :: body) = s :: (statementsIn s.inner ++ statementsIn body) := by
  obtain ⟨xs, hchildren⟩ := s.exists_children
  have hxs : (Node.walkFrom (xs.map .expression)).filterMap Node.statement? = [] :=
    Node.walkFrom_expressions (List.forall_mem_map.mpr fun x _ => ⟨x, rfl⟩)
  rw [Node.walkFrom_eq_flatMap] at hxs
  have hwalk : (Node.statement s).walk.filterMap Node.statement? = s :: statementsIn s.inner := by
    have hself : (Node.statement s).statement? = some s := rfl
    rw [Node.walk_eq, List.filterMap_cons_some hself, Node.children, hchildren, List.flatMap_append,
      List.filterMap_append, hxs, List.nil_append, ← nodesIn_eq]
    rfl
  rw [statementsIn, nodesIn_cons, List.filterMap_append, hwalk]
  rfl

namespace Module

theorem walk_eq (m : Module) : m.walk = .module m :: nodesIn m.body := by
  rw [Module.walk, Node.walk_eq, Node.children, nodesIn_eq]

theorem statements_eq (m : Module) : m.statements = statementsIn m.body := by
  rw [Module.statements, walk_eq, List.filterMap_cons_none rfl]
  rfl

theorem expressions_eq (m : Module) :
    m.expressions = (nodesIn m.body).filterMap Node.expression? := by
  rw [Module.expressions, walk_eq, List.filterMap_cons_none rfl]

theorem statements_append (body body' : List Statement) :
    (Module.mk (body ++ body')).statements =
      (Module.mk body).statements ++ (Module.mk body').statements := by
  rw [statements_eq, statements_eq, statements_eq, statementsIn_append]

end Module

/-- A function is found by its name at its first definition, whatever is defined after it. -/
theorem Function.firsts_prefix (known : List String) (fs fs' : List Function) :
    firsts known fs <+: firsts known (fs ++ fs') := by
  induction fs generalizing known with
  | nil => exact List.nil_prefix
  | cons f fs ih =>
    rw [List.cons_append, firsts, firsts]
    split
    · exact ih known
    · exact List.prefix_cons_inj f |>.mpr (ih (f.name :: known))

/-- Functions with other names are found where they were, so long as no two names become one. -/
theorem Function.firsts_map {r : String → String} {g : Function → Function}
    (hr : ∀ names n, r n ∈ List.map r names ↔ n ∈ names) (hg : ∀ f, (g f).name = r f.name)
    (known : List String) (fs : List Function) :
    firsts (known.map r) (fs.map g) = (firsts known fs).map g := by
  induction fs generalizing known with
  | nil => rfl
  | cons f fs ih =>
    rw [List.map_cons, firsts, firsts]
    simp only [hg, hr, ih, ← List.map_cons]
    split <;> rfl

theorem Module.functions_prefix (body body' : List Statement) :
    (Module.mk body).functions <+: (Module.mk (body ++ body')).functions := by
  rw [Module.functions, Module.functions, Module.statements_append, List.filterMap_append]
  exact Function.firsts_prefix [] _ _

end Growth.Code
