import Growth.Code.Node
import Mathlib.Algebra.Ring.Parity

/-! What is directly inside a node, position by position. The parts of a node have numbers in the
order in which they are written, and the children that the walk takes are the parts in this order. -/

namespace Growth.Code

/-! ### What is directly inside -/

/-- The expression `y` is the part of `x` with the number `i`, in the order in which its parts are
written. -/
inductive Expression.Part : (x : Expression) → (i : Nat) → (y : Expression) → Prop
  | listItem {items : List Expression} {i : Nat} {y : Expression} (h : items[i]? = some y) :
    Part (.list items) i y
  | tupleItem {items : List Expression} {i : Nat} {y : Expression} (h : items[i]? = some y) :
    Part (.tuple items) i y
  | setItem {items : List Expression} {i : Nat} {y : Expression} (h : items[i]? = some y) :
    Part (.set items) i y
  | key {entries : List (Expression × Expression)} {i : Nat} {key value : Expression}
    (h : entries[i]? = some (key, value)) : Part (.dict entries) (2 * i) key
  | value {entries : List (Expression × Expression)} {i : Nat} {key value : Expression}
    (h : entries[i]? = some (key, value)) : Part (.dict entries) (2 * i + 1) value
  | object (object index : Expression) : Part (.item object index) 0 object
  | index (object index : Expression) : Part (.item object index) 1 index
  | owner (object : Expression) (name : String) : Part (.field object name) 0 object
  | left (left : Expression) (op : Operator) (right : Expression) :
    Part (.binary left op right) 0 left
  | right (left : Expression) (op : Operator) (right : Expression) :
    Part (.binary left op right) 1 right
  | operand (op : UnaryOperator) (operand : Expression) : Part (.unary op operand) 0 operand
  | joinedLeft (left : Expression) (connective : Connective) (right : Expression) :
    Part (.joined left connective right) 0 left
  | joinedRight (left : Expression) (connective : Connective) (right : Expression) :
    Part (.joined left connective right) 1 right
  | first (first : Expression) (others : List (Comparison × Expression)) :
    Part (.compare first others) 0 first
  | compared {first : Expression} {others : List (Comparison × Expression)} {i : Nat}
    {c : Comparison} {y : Expression} (h : others[i]? = some (c, y)) :
    Part (.compare first others) (i + 1) y
  | callee (callee : Expression) (arguments : List Expression) :
    Part (.call callee arguments) 0 callee
  | argument {callee : Expression} {arguments : List Expression} {i : Nat} {y : Expression}
    (h : arguments[i]? = some y) : Part (.call callee arguments) (i + 1) y

/-- The expression `y` is the part of a target with the number `i`. -/
inductive Target.Part : (t : Target) → (i : Nat) → (y : Expression) → Prop
  | object (object index : Expression) : Part (.item object index) 0 object
  | index (object index : Expression) : Part (.item object index) 1 index
  | owner (object : Expression) (name : String) : Part (.field object name) 0 object

/-- The number of parts of a target. -/
def Target.size : Target → Nat
  | name _ => 0
  | item _ _ => 2
  | field _ _ => 1

/-- The node `n` is the part of a statement with the number `i`, in the order in which its parts are
written. -/
inductive Statement.Part : (s : Statement) → (i : Nat) → (n : Node) → Prop
  | functionBody {name : String} {parameters : List String} {body : List Statement} {i : Nat}
    {s : Statement} (h : body[i]? = some s) :
    Part (.function name parameters body) i (.statement s)
  | assigned {target : Target} {value : Expression} {i : Nat} {x : Expression}
    (h : target.Part i x) : Part (.assign target value) i (.expression x)
  | assignedValue (target : Target) (value : Expression) :
    Part (.assign target value) target.size (.expression value)
  | updated {target : Target} {op : Operator} {value : Expression} {i : Nat} {x : Expression}
    (h : target.Part i x) : Part (.update target op value) i (.expression x)
  | updateValue (target : Target) (op : Operator) (value : Expression) :
    Part (.update target op value) target.size (.expression value)
  | whileCondition (condition : Expression) (body : List Statement) :
    Part (.whileLoop condition body) 0 (.expression condition)
  | whileBody {condition : Expression} {body : List Statement} {i : Nat} {s : Statement}
    (h : body[i]? = some s) : Part (.whileLoop condition body) (i + 1) (.statement s)
  | iterable (counter : String) (iterable : Expression) (body : List Statement) :
    Part (.forLoop counter iterable body) 0 (.expression iterable)
  | forBody {counter : String} {iterable : Expression} {body : List Statement} {i : Nat}
    {s : Statement} (h : body[i]? = some s) :
    Part (.forLoop counter iterable body) (i + 1) (.statement s)
  | branchCondition (condition : Expression) (body other : List Statement) :
    Part (.branch condition body other) 0 (.expression condition)
  | branchBody {condition : Expression} {body other : List Statement} {i : Nat} {s : Statement}
    (h : body[i]? = some s) : Part (.branch condition body other) (i + 1) (.statement s)
  | branchOther {condition : Expression} {body other : List Statement} {i : Nat} {s : Statement}
    (h : other[i]? = some s) :
    Part (.branch condition body other) (body.length + i + 1) (.statement s)
  | resultValue (value : Expression) : Part (.result (some value)) 0 (.expression value)
  | expressionValue (value : Expression) : Part (.expression value) 0 (.expression value)

namespace Node

/-- The node `c` is the part of a node with the number `i`. -/
inductive Part : (n : Node) → (i : Nat) → (c : Node) → Prop
  | module {m : Module} {i : Nat} {s : Statement} (h : m.body[i]? = some s) :
    Part (.module m) i (.statement s)
  | statement {s : Statement} {i : Nat} {c : Node} (h : s.Part i c) : Part (.statement s) i c
  | expression {x : Expression} {i : Nat} {y : Expression} (h : x.Part i y) :
    Part (.expression x) i (.expression y)

/-- The node `d` occurs in a node, at the end of a path of parts. -/
inductive Occurs : (n : Node) → (path : List Nat) → (d : Node) → Prop
  | self (n : Node) : Occurs n [] n
  | inside {n c d : Node} {i : Nat} {path : List Nat} (hpart : n.Part i c)
    (h : Occurs c path d) : Occurs n (i :: path) d

end Node

/-! ### Parts are children -/

theorem getElem?_entries (entries : List (Expression × Expression)) (i : Nat) :
    (entries.flatMap fun (key, value) => [key, value])[2 * i]? = entries[i]?.map Prod.fst ∧
      (entries.flatMap fun (key, value) => [key, value])[2 * i + 1]? =
        entries[i]?.map Prod.snd := by
  induction entries generalizing i with
  | nil => exact ⟨rfl, rfl⟩
  | cons e entries ih =>
    cases i with
    | zero => exact ⟨rfl, rfl⟩
    | succ i => exact ih i

theorem Expression.part_iff {x y : Expression} {i : Nat} :
    x.Part i y ↔ x.children[i]? = some y := by
  constructor
  · intro h
    cases h with
    | key h =>
      rw [children, (getElem?_entries _ _).1, h]
      rfl
    | value h =>
      rw [children, (getElem?_entries _ _).2, h]
      rfl
    | listItem h | tupleItem h | setItem h | argument h => exact h
    | compared h => simp [children, h]
    | _ => rfl
  · intro h
    cases x with
    | list => exact .listItem h
    | tuple => exact .tupleItem h
    | set => exact .setItem h
    | dict entries =>
      rw [children] at h
      obtain ⟨k, rfl | rfl⟩ := i.even_or_odd'
      · rw [(getElem?_entries entries k).1, Option.map_eq_some_iff] at h
        obtain ⟨⟨key, value⟩, h, rfl⟩ := h
        exact .key h
      · rw [(getElem?_entries entries k).2, Option.map_eq_some_iff] at h
        obtain ⟨⟨key, value⟩, h, rfl⟩ := h
        exact .value h
    | item object index =>
      obtain _ | _ | i := i <;> cases h
      · exact .object ..
      · exact .index ..
    | field object name =>
      obtain _ | i := i <;> cases h
      exact .owner ..
    | binary left op right =>
      obtain _ | _ | i := i <;> cases h
      · exact .left ..
      · exact .right ..
    | unary op operand =>
      obtain _ | i := i <;> cases h
      exact .operand ..
    | joined left connective right =>
      obtain _ | _ | i := i <;> cases h
      · exact .joinedLeft ..
      · exact .joinedRight ..
    | compare first others =>
      cases i with
      | zero =>
        cases h
        exact .first ..
      | succ i =>
        rw [children, List.getElem?_cons_succ, List.getElem?_map, Option.map_eq_some_iff] at h
        obtain ⟨⟨c, y⟩, h, rfl⟩ := h
        exact .compared h
    | call callee arguments =>
      cases i with
      | zero =>
        cases h
        exact .callee ..
      | succ i => exact .argument h
    | _ => cases h

theorem Target.size_eq (t : Target) : t.size = t.children.length := by
  cases t <;> rfl

theorem Target.part_iff {t : Target} {y : Expression} {i : Nat} :
    t.Part i y ↔ t.children[i]? = some y := by
  constructor
  · intro h
    cases h <;> rfl
  · intro h
    cases t with
    | name => cases h
    | item object index =>
      obtain _ | _ | i := i <;> cases h
      · exact .object ..
      · exact .index ..
    | field object name =>
      obtain _ | i := i <;> cases h
      exact .owner ..

namespace Statement

theorem getElem?_statements {body : List Statement} {i : Nat} {n : Node} :
    (body.map Node.statement)[i]? = some n ↔ ∃ s, body[i]? = some s ∧ n = .statement s := by
  rw [List.getElem?_map, Option.map_eq_some_iff]
  exact exists_congr fun s => and_congr_right fun _ => eq_comm

/-- The parts of a target come before the value. -/
theorem getElem?_target {target : Target} {value : Expression} {i : Nat} {n : Node} :
    ((target.children ++ [value]).map Node.expression)[i]? = some n ↔
      (∃ x, target.Part i x ∧ n = .expression x) ∨ i = target.size ∧ n = .expression value := by
  rw [List.getElem?_map, Option.map_eq_some_iff, Target.size_eq]
  constructor
  · rintro ⟨x, hx, rfl⟩
    rcases Nat.lt_or_ge i target.children.length with hlt | hge
    · rw [List.getElem?_append_left hlt, ← Target.part_iff] at hx
      exact .inl ⟨x, hx, rfl⟩
    · rw [List.getElem?_append_right hge, List.getElem?_singleton] at hx
      split at hx
      · cases hx
        exact .inr ⟨by omega, rfl⟩
      · cases hx
  · rintro (⟨x, hx, rfl⟩ | ⟨rfl, rfl⟩)
    · rw [Target.part_iff] at hx
      obtain ⟨hlt, -⟩ := List.getElem?_eq_some_iff.mp hx
      exact ⟨x, by rw [List.getElem?_append_left hlt, hx], rfl⟩
    · exact ⟨value, by simp, rfl⟩

theorem part_iff {s : Statement} {n : Node} {i : Nat} : s.Part i n ↔ s.children[i]? = some n := by
  constructor
  · intro h
    cases h with
    | functionBody h => exact getElem?_statements.mpr ⟨_, h, rfl⟩
    | assigned h => exact getElem?_target.mpr (.inl ⟨_, h, rfl⟩)
    | assignedValue => exact getElem?_target.mpr (.inr ⟨rfl, rfl⟩)
    | updated h => exact getElem?_target.mpr (.inl ⟨_, h, rfl⟩)
    | updateValue => exact getElem?_target.mpr (.inr ⟨rfl, rfl⟩)
    | whileBody h | forBody h => exact getElem?_statements.mpr ⟨_, h, rfl⟩
    | branchBody h =>
      obtain ⟨hlt, -⟩ := List.getElem?_eq_some_iff.mp h
      exact getElem?_statements.mpr ⟨_, by rw [List.getElem?_append_left hlt, h], rfl⟩
    | branchOther h =>
      refine getElem?_statements.mpr ⟨_, ?_, rfl⟩
      rw [List.getElem?_append_right (Nat.le_add_right ..), Nat.add_sub_cancel_left, h]
    | _ => rfl
  · intro h
    cases s with
    | function =>
      obtain ⟨s, hs, rfl⟩ := getElem?_statements.mp h
      exact .functionBody hs
    | assign target value =>
      obtain ⟨x, hx, rfl⟩ | ⟨rfl, rfl⟩ := getElem?_target.mp h
      · exact .assigned hx
      · exact .assignedValue ..
    | update target op value =>
      obtain ⟨x, hx, rfl⟩ | ⟨rfl, rfl⟩ := getElem?_target.mp h
      · exact .updated hx
      · exact .updateValue ..
    | whileLoop condition body =>
      cases i with
      | zero =>
        cases h
        exact .whileCondition ..
      | succ i =>
        obtain ⟨s, hs, rfl⟩ := getElem?_statements.mp h
        exact .whileBody hs
    | forLoop counter iterable body =>
      cases i with
      | zero =>
        cases h
        exact .iterable ..
      | succ i =>
        obtain ⟨s, hs, rfl⟩ := getElem?_statements.mp h
        exact .forBody hs
    | branch condition body other =>
      cases i with
      | zero =>
        cases h
        exact .branchCondition ..
      | succ i =>
        obtain ⟨s, hs, rfl⟩ := getElem?_statements.mp h
        rcases Nat.lt_or_ge i body.length with hlt | hge
        · rw [List.getElem?_append_left hlt] at hs
          exact .branchBody hs
        · rw [List.getElem?_append_right hge] at hs
          obtain ⟨j, rfl⟩ := Nat.exists_eq_add_of_le hge
          rw [Nat.add_sub_cancel_left] at hs
          exact .branchOther hs
    | result value =>
      cases value with
      | none => cases h
      | some value =>
        obtain _ | i := i <;> cases h
        exact .resultValue ..
    | expression value =>
      obtain _ | i := i <;> cases h
      exact .expressionValue ..
    | _ => cases h

end Statement

namespace Node

/-- The children that the walk takes are the parts of a node, in their order. -/
theorem part_iff {n c : Node} {i : Nat} : n.Part i c ↔ n.children[i]? = some c := by
  constructor
  · intro h
    cases h with
    | module h => exact Statement.getElem?_statements.mpr ⟨_, h, rfl⟩
    | statement h => exact Statement.part_iff.mp h
    | expression h =>
      rw [children, List.getElem?_map, Expression.part_iff.mp h]
      rfl
  · intro h
    cases n with
    | module m =>
      obtain ⟨s, hs, rfl⟩ := Statement.getElem?_statements.mp h
      exact .module hs
    | statement s => exact .statement (Statement.part_iff.mpr h)
    | expression x =>
      rw [children, List.getElem?_map, Option.map_eq_some_iff] at h
      obtain ⟨y, hy, rfl⟩ := h
      exact .expression (Expression.part_iff.mpr hy)

end Node

end Growth.Code
