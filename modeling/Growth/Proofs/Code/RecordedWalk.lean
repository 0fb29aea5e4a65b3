import Growth.Proofs.Code.Recorded
import Growth.Proofs.Code.Walk

/-! The walk over a program that records. It visits what it visited before, with its blocks recorded,
and the calls of the routine in between. Whoever overlooks these calls finds in the one program what
there is in the other: its functions with their calls of themselves, and its loops with the conditions
on which they end. -/

namespace Growth.Code

def Node.recorded : Node → Node
  | module m => .module (Recording.recorded m)
  | statement s => .statement (Recording.statement s)
  | expression x => .expression x

namespace Recording

/-! ### What is overlooked -/

theorem walk_call (n : String) : (Node.statement (call n)).walk =
    [.statement (call n), .expression (.call (.name routine) [.string n, .name n]),
      .expression (.name routine), .expression (.string n), .expression (.name n)] := by
  simp [Node.walk_eq, Node.children, Statement.children, Expression.children, call]

/-- Nothing is found in the calls that recording adds. -/
def Overlooks {α : Type} (f : Node → Option α) : Prop :=
  ∀ n, ∀ x ∈ (Node.statement (call n)).walk, f x = none

theorem overlooks_statements {α : Type} {g : Statement → Option α} (h : ∀ n, g (call n) = none) :
    Overlooks fun x => x.statement?.bind g := by
  intro n x hx
  rw [walk_call] at hx
  simp only [List.mem_cons, List.not_mem_nil, or_false] at hx
  rcases hx with rfl | rfl | rfl | rfl | rfl
  · exact h n
  all_goals rfl

theorem overlooks_expressions {α : Type} {g : Expression → Option α}
    (hcall : ∀ arguments, g (.call (.name routine) arguments) = none)
    (hstring : ∀ content, g (.string content) = none) (hname : ∀ n, g (.name n) = none) :
    Overlooks fun x => x.expression?.bind g := by
  intro n x hx
  rw [walk_call] at hx
  simp only [List.mem_cons, List.not_mem_nil, or_false] at hx
  rcases hx with rfl | rfl | rfl | rfl | rfl
  · rfl
  · exact hcall _
  · exact hname routine
  · exact hstring n
  · exact hname n

/-! ### What is found -/

section Walk

variable {α : Type} {f : Node → Option α}

theorem filterMap_nodesIn_callsAfter (hf : Overlooks f) (has : Bool) (s : Statement) :
    (nodesIn (callsAfter has s)).filterMap f = [] := by
  refine List.filterMap_eq_nil_iff.mpr fun x hx => ?_
  obtain ⟨t, ht, hx⟩ := List.mem_flatMap.mp hx
  obtain ⟨n, -, rfl⟩ := mem_callsAfter ht
  exact hf n x hx

/-- Only expressions are visited in an expression, and these are not recorded. -/
theorem filterMap_walkFrom_expressions {ns : List Node} (h : ∀ x ∈ ns, ∃ y, x = .expression y) :
    (Node.walkFrom ns).filterMap (f ∘ Node.recorded) = (Node.walkFrom ns).filterMap f := by
  induction ns using Node.walkFrom.induct with
  | case1 => rw [Node.walkFrom, List.filterMap_nil, List.filterMap_nil]
  | case2 x stack ih =>
    obtain ⟨⟨y, rfl⟩, hstack⟩ := List.forall_mem_cons.mp h
    have hmore := ih (List.forall_mem_append.mpr
      ⟨List.forall_mem_map.mpr fun y _ => ⟨y, rfl⟩, hstack⟩)
    rw [Node.walkFrom, List.filterMap_cons, List.filterMap_cons, hmore]
    rfl

/-- Recording changes nothing directly inside a statement but its statements. -/
theorem exists_children_statement (s : Statement) : ∃ xs : List Expression,
    s.children = xs.map .expression ++ s.inner.map .statement ∧
    (statement s).children = xs.map .expression ++ (statement s).inner.map .statement := by
  cases s with
  | function _ _ body => exact ⟨[], rfl, rfl⟩
  | whileLoop condition body => exact ⟨[condition], rfl, rfl⟩
  | forLoop _ iterable body => exact ⟨[iterable], rfl, rfl⟩
  | branch condition body other => exact ⟨[condition], rfl, rfl⟩
  | assign _ _ | update _ _ _ | result _ | breakLoop | continueLoop | pass | expression _ =>
    obtain ⟨xs, hxs⟩ := Statement.exists_children _
    exact ⟨xs, hxs, hxs⟩

/-- The walk over a recorded statement, from the walk over what is inside it. -/
theorem filterMap_walk_statement (s : Statement)
    (hinner : (nodesIn (statement s).inner).filterMap f =
      (nodesIn s.inner).filterMap (f ∘ Node.recorded)) :
    (Node.statement (statement s)).walk.filterMap f =
      (Node.statement s).walk.filterMap (f ∘ Node.recorded) := by
  obtain ⟨xs, hbefore, hafter⟩ := exists_children_statement s
  have hxs : (Node.walkFrom (xs.map .expression)).filterMap (f ∘ Node.recorded) =
      (Node.walkFrom (xs.map .expression)).filterMap f :=
    filterMap_walkFrom_expressions (List.forall_mem_map.mpr fun y _ => ⟨y, rfl⟩)
  rw [Node.walkFrom_eq_flatMap] at hxs
  rw [nodesIn_eq, nodesIn_eq] at hinner
  rw [Node.walk_eq, Node.walk_eq, Node.children, Node.children, hbefore, hafter,
    List.filterMap_cons, List.filterMap_cons, List.flatMap_append, List.flatMap_append,
    List.filterMap_append, List.filterMap_append, hxs, hinner]
  rfl

mutual

theorem filterMap_nodesIn_inner (hf : Overlooks f) : (s : Statement) →
    (nodesIn (statement s).inner).filterMap f = (nodesIn s.inner).filterMap (f ∘ Node.recorded)
  | .function _ _ body | .whileLoop _ body | .forLoop _ _ body =>
    filterMap_nodesIn_block hf _ body
  | .branch _ body other => by
    rw [statement, Statement.inner, Statement.inner, nodesIn_append, nodesIn_append,
      List.filterMap_append, List.filterMap_append, filterMap_nodesIn_block hf _ body,
      filterMap_nodesIn_block hf _ other]
  | .assign _ _ | .update _ _ _ | .result _ | .breakLoop | .continueLoop | .pass
  | .expression _ => rfl

/-- Who overlooks the calls that recording adds finds in a block that is recorded what he finds in the
block, each node recorded. -/
theorem filterMap_nodesIn_block (hf : Overlooks f) (has : Bool) : (ss : List Statement) →
    (nodesIn (block has ss)).filterMap f = (nodesIn ss).filterMap (f ∘ Node.recorded)
  | [] => rfl
  | s :: ss => by
    have hs := filterMap_walk_statement s (filterMap_nodesIn_inner hf s)
    have hss := filterMap_nodesIn_block hf has ss
    rw [block, ← callsAfter, nodesIn_cons, nodesIn_append, nodesIn_cons, List.filterMap_append,
      List.filterMap_append, List.filterMap_append, filterMap_nodesIn_callsAfter hf,
      List.nil_append, hs, hss]

end

end Walk

/-! ### Statements and expressions -/

section Statements

variable {α : Type} {g : Statement → Option α}

theorem filterMap_statementsIn_block (hg : ∀ n, g (call n) = none) (has : Bool)
    (ss : List Statement) :
    (statementsIn (block has ss)).filterMap g = (statementsIn ss).filterMap (g ∘ statement) := by
  rw [statementsIn, statementsIn, List.filterMap_filterMap, List.filterMap_filterMap,
    filterMap_nodesIn_block (overlooks_statements hg)]
  refine congrArg (List.filterMap · _) (funext fun x => ?_)
  cases x <;> rfl

theorem findSome?_statementsIn_block (hg : ∀ n, g (call n) = none) (has : Bool)
    (ss : List Statement) :
    (statementsIn (block has ss)).findSome? g = (statementsIn ss).findSome? (g ∘ statement) := by
  rw [← List.head?_filterMap, filterMap_statementsIn_block hg, List.head?_filterMap]

theorem filter_statementsIn_block {p : Statement → Bool} (hp : ∀ n, p (call n) = false)
    (hstatement : ∀ s, p (statement s) = p s) (has : Bool) (ss : List Statement) :
    (statementsIn (block has ss)).filter p = ((statementsIn ss).filter p).map statement := by
  have hguard : Option.guard p ∘ statement = fun s => (Option.guard p s).map statement := by
    funext s
    simp only [Function.comp_apply, Option.guard, hstatement]
    split <;> rfl
  rw [← List.filterMap_eq_filter, filterMap_statementsIn_block (by simp [hp]), hguard,
    ← List.map_filterMap, List.filterMap_eq_filter]

end Statements

theorem filterMap_expressionsIn_block {α : Type} {g : Expression → Option α}
    (hcall : ∀ arguments, g (.call (.name routine) arguments) = none)
    (hstring : ∀ content, g (.string content) = none) (hname : ∀ n, g (.name n) = none)
    (has : Bool) (ss : List Statement) :
    ((nodesIn (block has ss)).filterMap Node.expression?).filterMap g =
      ((nodesIn ss).filterMap Node.expression?).filterMap g := by
  rw [List.filterMap_filterMap, List.filterMap_filterMap,
    filterMap_nodesIn_block (overlooks_expressions hcall hstring hname)]
  refine congrArg (List.filterMap · _) (funext fun x => ?_)
  cases x <;> rfl

end Recording

open Recording

/-! ### Functions -/

namespace Function

def recorded (f : Function) : Function :=
  ⟨f.name, f.parameters, block (f.body.any isCall) f.body⟩

theorem ofStatement?_statement (s : Statement) :
    ofStatement? (statement s) = (ofStatement? s).map recorded := by
  cases s <;> rfl

theorem mem_of_mem_firsts {known : List String} {fs : List Function} {f : Function}
    (h : f ∈ firsts known fs) : f ∈ fs := by
  induction fs generalizing known with
  | nil => cases h
  | cons g fs ih =>
    rw [firsts] at h
    split at h
    · exact List.mem_cons_of_mem g (ih h)
    · exact List.mem_cons.mpr ((List.mem_cons.mp h).imp_right ih)

/-- Unless it is the routine, a function calls itself as it did before. -/
theorem selfCalls_recorded {f : Function} (h : f.name ≠ routine) :
    f.recorded.selfCalls = f.selfCalls := by
  refine filterMap_expressionsIn_block (fun arguments => ?_) (fun _ => rfl) (fun _ => rfl) _ f.body
  exact if_neg h.symm

theorem converges_recorded {f : Function} (h : f.name ≠ routine) :
    f.recorded.converges = f.converges := by
  rw [converges, selfCalls_recorded h]
  rfl

end Function

theorem Module.functions_recorded (m : Module) :
    (recorded m).functions = m.functions.map Function.recorded := by
  have hfunctions : (recorded m).statements.filterMap Function.ofStatement? =
      (m.statements.filterMap Function.ofStatement?).map Function.recorded := by
    rw [statements_eq, statements_eq, recorded, filterMap_statementsIn_block (fun _ => rfl),
      List.map_filterMap]
    exact congrArg (List.filterMap · _) (funext Function.ofStatement?_statement)
  rw [functions, hfunctions]
  exact Function.firsts_map (r := id) (g := Function.recorded) (by simp) (fun _ => rfl) [] _

/-! ### Loops -/

namespace Statement

theorem isLoop_statement (s : Statement) : (statement s).isLoop = s.isLoop := by
  cases s <;> rfl

theorem filter_isLoop_recorded (m : Module) :
    (recorded m).statements.filter isLoop = (m.statements.filter isLoop).map statement := by
  rw [Module.statements_eq, Module.statements_eq, recorded]
  exact filter_statementsIn_block (fun _ => rfl) isLoop_statement _ m.body

theorem leaves_eq_isSome (s : Statement) :
    s.leaves = ((statementsIn [s]).findSome? fun
      | .breakLoop => some ()
      | _ => none).isSome := by
  rw [leaves, List.isSome_findSome?]
  refine congrArg (List.any _) (funext fun t => ?_)
  cases t <;> rfl

/-- A way out of a loop is still one, and there is no other. -/
theorem leaves_statement (s : Statement) : (statement s).leaves = s.leaves := by
  -- Recording a block that has calls adds none, so it does to one statement what it does inside.
  have hstatement : [statement s] = block true [s] := rfl
  rw [leaves_eq_isSome, leaves_eq_isSome, hstatement,
    findSome?_statementsIn_block (fun _ => rfl)]
  refine congrArg (fun f => ((statementsIn [s]).findSome? f).isSome) (funext fun t => ?_)
  cases t <;> rfl

theorem leavingCondition?_statement (s : Statement) :
    (statement s).leavingCondition? = s.leavingCondition? := by
  have hleaves := leaves_statement s
  cases s with
  | branch condition body other =>
    rw [statement] at hleaves ⊢
    rw [leavingCondition?, hleaves, leavingCondition?]
  | _ => rfl

theorem breakCondition?_statement (s : Statement) :
    (statement s).breakCondition? = s.breakCondition? := by
  cases s with
  | whileLoop condition body =>
    rw [statement, breakCondition?, findSome?_statementsIn_block (fun _ => rfl), breakCondition?]
    exact congrArg (List.findSome? · _) (funext leavingCondition?_statement)
  | _ => rfl

theorem exitConditions_statement (s : Statement) :
    (statement s).exitConditions = s.exitConditions := by
  have hbreak := breakCondition?_statement s
  cases s with
  | whileLoop condition body =>
    rw [statement] at hbreak ⊢
    cases condition with
    | boolean value => cases value <;> simp only [exitConditions, hbreak]
    | _ => simp only [exitConditions, hbreak]
  | _ => rfl

theorem repeated?_statement (s : Statement) :
    (statement s).repeated? = s.repeated?.map fun body => block (body.any isCall) body := by
  cases s <;> rfl

theorem divided?_statement (s : Statement) : (statement s).divided? = s.divided? := by
  cases s <;> rfl

theorem halves_statement (s : Statement) : (statement s).halves = s.halves := by
  have hexits := exitConditions_statement s
  cases s with
  | whileLoop condition body =>
    have hdivided : (statementsIn (block (body.any isCall) body)).filterMap divided? =
        (statementsIn body).filterMap divided? := by
      rw [filterMap_statementsIn_block (fun _ => rfl)]
      exact congrArg (List.filterMap · _) (funext divided?_statement)
    rw [statement] at hexits ⊢
    simp only [halves]
    rw [hexits, hdivided]
  | _ => rfl

end Statement

end Growth.Code
