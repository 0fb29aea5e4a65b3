import Growth.Proofs.Code.Walk
import Mathlib.Data.List.Basic

/-! Programs with other names. A renaming keeps different names different, and it keeps the two names
that are looked for by their spelling. What a walk visits is renamed with the program, and so are its
functions and the conditions of its loops. -/

namespace Growth.Code

/-- Other names for names. -/
structure Renaming where
  toFun : String → String
  injective : Function.Injective toFun
  range : toFun "range" = "range"
  len : toFun "len" = "len"

namespace Renaming

instance : CoeFun Renaming fun _ => String → String := ⟨toFun⟩

/-- Two names in each other's place. -/
def swap (a b : String) (ha : a ≠ "range" ∧ a ≠ "len") (hb : b ≠ "range" ∧ b ≠ "len") :
    Renaming where
  toFun n := if n = a then b else if n = b then a else n
  injective m n h := by grind
  range := by grind
  len := by grind

variable (r : Renaming)

theorem eq_iff {m n : String} : r m = r n ↔ m = n :=
  r.injective.eq_iff

theorem mem_map {n : String} {names : List String} : r n ∈ names.map r ↔ n ∈ names :=
  List.mem_map_of_injective r.injective

theorem contains_map (names : List String) (n : String) :
    (names.map r).contains (r n) = names.contains n := by
  rw [Bool.eq_iff_iff, List.contains_iff_mem, List.contains_iff_mem, r.mem_map]

theorem eq_range_iff {n : String} : r n = "range" ↔ n = "range" := by
  rw [← r.range, r.eq_iff, r.range]

theorem eq_len_iff {n : String} : r n = "len" ↔ n = "len" := by
  rw [← r.len, r.eq_iff, r.len]

end Renaming

variable (r : Renaming)

/-! ### Trees -/

namespace Expression

mutual

/-- An expression with other names. The name of a field is no name of its own. -/
def renamed (r : Renaming) : Expression → Expression
  | integer lexeme => integer lexeme
  | float value => float value
  | string content => string content
  | boolean value => boolean value
  | none => none
  | name n => name (r n)
  | list items => list (renamedAll r items)
  | tuple items => tuple (renamedAll r items)
  | set items => set (renamedAll r items)
  | dict entries => dict (renamedEntries r entries)
  | item object index => item (renamed r object) (renamed r index)
  | field object n => field (renamed r object) n
  | binary left op right => binary (renamed r left) op (renamed r right)
  | unary op operand => unary op (renamed r operand)
  | joined left connective right => joined (renamed r left) connective (renamed r right)
  | compare first others => compare (renamed r first) (renamedCompared r others)
  | call callee arguments => call (renamed r callee) (renamedAll r arguments)

/-- `renamed` over a list. -/
def renamedAll (r : Renaming) : List Expression → List Expression
  | [] => []
  | x :: xs => renamed r x :: renamedAll r xs

/-- `renamed` over the entries of a dictionary. -/
def renamedEntries (r : Renaming) :
    List (Expression × Expression) → List (Expression × Expression)
  | [] => []
  | (key, value) :: entries => (renamed r key, renamed r value) :: renamedEntries r entries

/-- `renamed` over the further operands of a comparison. -/
def renamedCompared (r : Renaming) :
    List (Comparison × Expression) → List (Comparison × Expression)
  | [] => []
  | (c, x) :: xs => (c, renamed r x) :: renamedCompared r xs

end

theorem renamedAll_eq (xs : List Expression) : renamedAll r xs = xs.map (renamed r) := by
  induction xs <;> simp [renamedAll, *]

theorem flatMap_renamedEntries (entries : List (Expression × Expression)) :
    ((renamedEntries r entries).flatMap fun (key, value) => [key, value]) =
      (entries.flatMap fun (key, value) => [key, value]).map (renamed r) := by
  induction entries <;> simp [renamedEntries, *]

theorem map_snd_renamedCompared (xs : List (Comparison × Expression)) :
    (renamedCompared r xs).map Prod.snd = (xs.map Prod.snd).map (renamed r) := by
  induction xs <;> simp [renamedCompared, *]

theorem children_renamed (x : Expression) :
    (x.renamed r).children = x.children.map (renamed r) := by
  cases x <;> simp [renamed, children, renamedAll_eq, flatMap_renamedEntries,
    map_snd_renamedCompared, -List.map_map]

@[simp] theorem name?_renamed (x : Expression) : (x.renamed r).name? = x.name?.map r := by
  cases x <;> rfl

theorem filterMap_name?_renamed (xs : List Expression) :
    (xs.map (renamed r)).filterMap name? = (xs.filterMap name?).map r := by
  simp [List.filterMap_map, List.map_filterMap]

@[simp] theorem callee?_renamed (x : Expression) : (x.renamed r).callee? = x.callee?.map r := by
  cases x with
  | call callee arguments => exact name?_renamed r callee
  | _ => rfl

end Expression

/-- A target with other names. -/
def Target.renamed : Target → Target
  | name n => name (r n)
  | item object index => item (object.renamed r) (index.renamed r)
  | field object n => field (object.renamed r) n

theorem Target.children_renamed (t : Target) :
    (t.renamed r).children = t.children.map (Expression.renamed r) := by
  cases t <;> rfl

namespace Statement

mutual

/-- A statement with other names. -/
def renamed (r : Renaming) : Statement → Statement
  | function n parameters body => function (r n) (parameters.map r) (renamedAll r body)
  | assign target value => assign (target.renamed r) (value.renamed r)
  | update target op value => update (target.renamed r) op (value.renamed r)
  | whileLoop condition body => whileLoop (condition.renamed r) (renamedAll r body)
  | forLoop counter iterable body =>
    forLoop (r counter) (iterable.renamed r) (renamedAll r body)
  | branch condition body other =>
    branch (condition.renamed r) (renamedAll r body) (renamedAll r other)
  | result value => result (value.map (Expression.renamed r))
  | breakLoop => breakLoop
  | continueLoop => continueLoop
  | pass => pass
  | expression value => expression (value.renamed r)

/-- `renamed` over a list. -/
def renamedAll (r : Renaming) : List Statement → List Statement
  | [] => []
  | s :: ss => renamed r s :: renamedAll r ss

end

theorem renamedAll_eq (ss : List Statement) : renamedAll r ss = ss.map (renamed r) := by
  induction ss <;> simp [renamedAll, *]

theorem renamed_assign (target : Target) (value : Expression) :
    (assign target value).renamed r = assign (target.renamed r) (value.renamed r) := rfl

theorem renamed_update (target : Target) (op : Operator) (value : Expression) :
    (update target op value).renamed r = update (target.renamed r) op (value.renamed r) := rfl

theorem renamed_whileLoop (condition : Expression) (body : List Statement) :
    (whileLoop condition body).renamed r =
      whileLoop (condition.renamed r) (body.map (renamed r)) :=
  congrArg (whileLoop _) (renamedAll_eq r body)

theorem renamed_branch (condition : Expression) (body other : List Statement) :
    (branch condition body other).renamed r =
      branch (condition.renamed r) (body.map (renamed r)) (other.map (renamed r)) :=
  congrArg₂ (branch _) (renamedAll_eq r body) (renamedAll_eq r other)

end Statement

/-- A program with other names. -/
def Module.renamed (m : Module) : Module :=
  ⟨m.body.map (Statement.renamed r)⟩

/-! ### Walks -/

/-- A node with other names. -/
def Node.renamed : Node → Node
  | module m => module (m.renamed r)
  | statement s => statement (s.renamed r)
  | expression x => expression (x.renamed r)

namespace Node

theorem map_statement_renamed (ss : List Statement) :
    (ss.map (Statement.renamed r)).map statement = (ss.map statement).map (renamed r) := by
  simp [renamed]

theorem map_expression_renamed (xs : List Expression) :
    (xs.map (Expression.renamed r)).map expression = (xs.map expression).map (renamed r) := by
  simp [renamed]

theorem children_renamed (n : Node) : (n.renamed r).children = n.children.map (renamed r) := by
  match n with
  | module m => exact map_statement_renamed r m.body
  | expression x =>
    rw [renamed, children, Expression.children_renamed, map_expression_renamed]
    rfl
  | statement s =>
    rcases s with _ | _ | _ | _ | _ | _ | (_ | _) | _ | _ | _ | _ <;>
      simp [renamed, children, Statement.children, Statement.renamed, Statement.renamedAll_eq,
        Target.children_renamed, Function.comp_def]

theorem walkFrom_renamed (ns : List Node) :
    walkFrom (ns.map (renamed r)) = (walkFrom ns).map (renamed r) := by
  induction ns using walkFrom.induct with
  | case1 => rw [List.map_nil, walkFrom, List.map_nil]
  | case2 n stack ih =>
    rw [List.map_cons, walkFrom, walkFrom, children_renamed, ← List.map_append, ih, List.map_cons]

/-- The walk over a renamed tree visits the renamed nodes. -/
theorem walk_renamed (n : Node) : (n.renamed r).walk = n.walk.map (renamed r) :=
  walkFrom_renamed r [n]

theorem statement?_renamed (n : Node) :
    (n.renamed r).statement? = n.statement?.map (Statement.renamed r) := by
  cases n <;> rfl

theorem expression?_renamed (n : Node) :
    (n.renamed r).expression? = n.expression?.map (Expression.renamed r) := by
  cases n <;> rfl

theorem filterMap_statement?_renamed (ns : List Node) :
    (ns.map (renamed r)).filterMap statement? =
      (ns.filterMap statement?).map (Statement.renamed r) := by
  simp [List.filterMap_map, List.map_filterMap, statement?_renamed]

theorem filterMap_expression?_renamed (ns : List Node) :
    (ns.map (renamed r)).filterMap expression? =
      (ns.filterMap expression?).map (Expression.renamed r) := by
  simp [List.filterMap_map, List.map_filterMap, expression?_renamed]

end Node

theorem nodesIn_renamed (body : List Statement) :
    nodesIn (body.map (Statement.renamed r)) = (nodesIn body).map (Node.renamed r) := by
  rw [nodesIn, nodesIn, List.flatMap_map, List.map_flatMap]
  exact congrArg (List.flatMap · body) (funext fun s => Node.walk_renamed r (.statement s))

theorem statementsIn_renamed (body : List Statement) :
    statementsIn (body.map (Statement.renamed r)) =
      (statementsIn body).map (Statement.renamed r) := by
  rw [statementsIn, nodesIn_renamed, Node.filterMap_statement?_renamed, statementsIn]

theorem Module.statements_renamed (m : Module) :
    (m.renamed r).statements = m.statements.map (Statement.renamed r) := by
  rw [statements_eq, statements_eq, Module.renamed, statementsIn_renamed]

theorem Module.expressions_renamed (m : Module) :
    (m.renamed r).expressions = m.expressions.map (Expression.renamed r) := by
  have hwalk : (m.renamed r).walk = m.walk.map (Node.renamed r) := Node.walk_renamed r (.module m)
  rw [expressions, hwalk, Node.filterMap_expression?_renamed, expressions]

namespace Expression

theorem within_renamed (x : Expression) : (x.renamed r).within = x.within.map (renamed r) := by
  have hwalk := Node.walk_renamed r (.expression x)
  rw [Node.renamed] at hwalk
  rw [within, hwalk, Node.filterMap_expression?_renamed, within]

/-- An expression mentions what it did, under its new name. -/
@[simp] theorem mentions_renamed (x : Expression) (n : String) :
    (x.renamed r).mentions (r n) = x.mentions n := by
  have hwalk := Node.walk_renamed r (.expression x)
  rw [Node.renamed] at hwalk
  rw [mentions, hwalk, List.any_map, mentions]
  refine congrArg (List.any _) (funext fun m => ?_)
  cases m with
  | expression y =>
    cases hy : y.name? <;>
      simp [Node.renamed, Node.expression?, hy, r.eq_iff]
  | _ => rfl

theorem compared_renamed (x : Expression) : (x.renamed r).compared = x.compared.map (renamed r) := by
  rw [compared, within_renamed, List.flatMap_map, compared, List.map_flatMap]
  refine congrArg (List.flatMap · x.within) (funext fun y => ?_)
  cases y <;> simp [renamed, map_snd_renamedCompared, -List.map_map]

end Expression

/-! ### Functions -/

namespace Function

/-- A function with other names. -/
def renamed (f : Function) : Function :=
  ⟨r f.name, f.parameters.map r, f.body.map (Statement.renamed r)⟩

theorem ofStatement?_renamed (s : Statement) :
    ofStatement? (s.renamed r) = (ofStatement? s).map (renamed r) := by
  cases s <;> simp [Statement.renamed, ofStatement?, renamed, Statement.renamedAll_eq]

theorem callArguments?_renamed (f : Function) (x : Expression) :
    (f.renamed r).callArguments? (x.renamed r) =
      (f.callArguments? x).map (List.map (Expression.renamed r)) := by
  cases x with
  | call callee arguments =>
    cases callee with
    | name n =>
      have hname : r n = (f.renamed r).name ↔ n = f.name := r.eq_iff
      simp only [Expression.renamed, Expression.renamedAll_eq, callArguments?, hname]
      split <;> rfl
    | _ => rfl
  | _ => rfl

theorem selfCalls_renamed (f : Function) :
    (f.renamed r).selfCalls = f.selfCalls.map (List.map (Expression.renamed r)) := by
  have hbody : (f.renamed r).body = f.body.map (Statement.renamed r) := rfl
  rw [selfCalls, hbody, nodesIn_renamed, Node.filterMap_expression?_renamed, List.filterMap_map,
    selfCalls, List.map_filterMap]
  exact congrArg (List.filterMap · _) (funext fun x => callArguments?_renamed r f x)

theorem dividesParameter_renamed (f : Function) (x : Expression) :
    (f.renamed r).dividesParameter (x.renamed r) = f.dividesParameter x := by
  have hparameters : (f.renamed r).parameters = f.parameters.map r := rfl
  rw [dividesParameter, Expression.within_renamed, List.any_map, hparameters, dividesParameter]
  refine congrArg (List.any _) (funext fun y => ?_)
  cases y <;> simp [Expression.renamed, Function.comp_def]

theorem converges_renamed (f : Function) : (f.renamed r).converges = f.converges := by
  rw [converges, selfCalls_renamed, List.all_map, converges]
  refine congrArg (List.all _) (funext fun arguments => ?_)
  rw [Function.comp_apply, List.any_map]
  exact congrArg (List.any _) (funext fun x => dividesParameter_renamed r f x)

end Function

theorem Module.functions_renamed (m : Module) :
    (m.renamed r).functions = m.functions.map (Function.renamed r) := by
  have hfunctions : (m.renamed r).statements.filterMap Function.ofStatement? =
      (m.statements.filterMap Function.ofStatement?).map (Function.renamed r) := by
    rw [statements_renamed, List.filterMap_map, List.map_filterMap]
    exact congrArg (List.filterMap · _) (funext fun s => Function.ofStatement?_renamed r s)
  rw [functions, hfunctions]
  exact Function.firsts_map (fun _ _ => r.mem_map) (fun _ => rfl) [] _

/-! ### Loops -/

namespace Statement

@[simp] theorem isLoop_renamed (s : Statement) : (s.renamed r).isLoop = s.isLoop := by
  cases s <;> rfl

theorem leaves_renamed (s : Statement) : (s.renamed r).leaves = s.leaves := by
  have hstatements := statementsIn_renamed r [s]
  rw [List.map_cons, List.map_nil] at hstatements
  rw [leaves, hstatements, List.any_map, leaves]
  refine congrArg (List.any _) (funext fun t => ?_)
  cases t <;> rfl

theorem leavingCondition?_renamed (s : Statement) :
    (s.renamed r).leavingCondition? = s.leavingCondition?.map (Expression.renamed r) := by
  have hleaves := leaves_renamed r s
  cases s with
  | branch condition body other =>
    rw [renamed_branch] at hleaves ⊢
    rw [leavingCondition?, hleaves, leavingCondition?]
    split <;> rfl
  | _ => rfl

theorem breakCondition?_renamed (s : Statement) :
    (s.renamed r).breakCondition? = s.breakCondition?.map (Expression.renamed r) := by
  cases s with
  | whileLoop condition body =>
    rw [renamed_whileLoop, breakCondition?, statementsIn_renamed, List.findSome?_map,
      breakCondition?, List.map_findSome?]
    exact congrArg (List.findSome? · _) (funext fun s => leavingCondition?_renamed r s)
  | _ => rfl

/-- The conditions of a renamed loop are renamed, and one that is always true stays so. -/
theorem exitConditions_renamed (s : Statement) :
    (s.renamed r).exitConditions = s.exitConditions.map (Expression.renamed r) := by
  have hbreak := breakCondition?_renamed r s
  have htoList (o : Option Expression) :
      (o.map (Expression.renamed r)).toList = o.toList.map (Expression.renamed r) := by
    cases o <;> rfl
  cases s with
  | whileLoop condition body =>
    rw [renamed_whileLoop] at hbreak ⊢
    cases condition with
    | boolean value =>
      cases value <;> simp only [Expression.renamed, exitConditions] at hbreak ⊢ <;>
        simp [hbreak, htoList, Expression.renamed]
    | _ =>
      simp only [Expression.renamed, exitConditions] at hbreak ⊢
      simp [hbreak, htoList, Expression.renamed]
  | _ => rfl

theorem flatMap_compared_renamed (s : Statement) :
    (s.renamed r).exitConditions.flatMap Expression.compared =
      (s.exitConditions.flatMap Expression.compared).map (Expression.renamed r) := by
  rw [exitConditions_renamed, List.flatMap_map, List.map_flatMap]
  exact congrArg (List.flatMap · _) (funext fun x => Expression.compared_renamed r x)

@[simp] theorem repeated?_renamed (s : Statement) :
    (s.renamed r).repeated? = s.repeated?.map (List.map (renamed r)) := by
  cases s <;> simp [renamed, repeated?, renamedAll_eq]

theorem divided?_renamed (s : Statement) : (s.renamed r).divided? = s.divided?.map r := by
  cases s with
  | assign target value =>
    cases target with
    | name n =>
      cases value with
      | binary left op right =>
        have hname : ((left.renamed r).name? == some (r n)) = (left.name? == some n) := by
          cases hleft : left.name? <;> simp [hleft, r.eq_iff]
        simp only [renamed_assign, Target.renamed, Expression.renamed, divided?, hname]
        split <;> rfl
      | _ => rfl
    | _ => cases value <;> rfl
  | update target op value =>
    cases target with
    | name n =>
      simp only [renamed_update, Target.renamed, divided?]
      split <;> rfl
    | _ => rfl
  | _ => rfl

theorem halves_renamed (s : Statement) : (s.renamed r).halves = s.halves := by
  have hcompared := flatMap_compared_renamed r s
  cases s with
  | whileLoop condition body =>
    have hdivided : (statementsIn (body.map (renamed r))).filterMap divided? =
        ((statementsIn body).filterMap divided?).map r := by
      rw [statementsIn_renamed, List.filterMap_map, List.map_filterMap]
      exact congrArg (List.filterMap · _) (funext fun s => divided?_renamed r s)
    rw [renamed_whileLoop] at hcompared ⊢
    simp only [halves]
    rw [hcompared, Expression.filterMap_name?_renamed, hdivided, List.any_map]
    exact congrArg (List.any _) (funext fun n => r.contains_map _ n)
  | _ => rfl

@[simp] theorem counts_renamed (s : Statement) : (s.renamed r).counts = s.counts := by
  cases s with
  | forLoop counter iterable body =>
    cases h : iterable.callee? <;> simp [renamed, counts, h, r.eq_range_iff]
  | _ => rfl

end Statement

end Growth.Code
