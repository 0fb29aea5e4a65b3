import Growth.Proofs.Code.Acceptance
import Growth.Proofs.Code.Parts
import Growth.Proofs.Code.Walk

/-! The walk over a tree visits each node once, before what is inside it and in the order in which
the text is written. The walk is what an explicit stack of nodes goes through. -/

namespace Growth.Code

namespace Node

/-- The nodes in a node with their paths. They are listed as they are walked over, and this is the
order of their paths, so none is listed twice. -/
structure Lists (n : Node) (occurrences : List (List Nat × Node)) : Prop where
  walk : occurrences.map Prod.snd = n.walk
  ordered : (occurrences.map Prod.fst).Pairwise (· < ·)
  exact : ∀ path d, (path, d) ∈ occurrences ↔ n.Occurs path d

/-- One visit takes the node at the end of the stack and puts its children there, the first of them
last. -/
def visit (stack : List Node) : Option (Node × List Node) :=
  stack.getLast?.map fun n => (n, stack.dropLast ++ n.children.reverse)

/-- From `stack` the nodes `visited` are visited one after the other, and `left` is left. -/
inductive Visits : (stack visited left : List Node) → Prop
  | done (stack : List Node) : Visits stack [] stack
  | next {stack stack' visited left : List Node} {n : Node} (hvisit : visit stack = some (n, stack'))
    (h : Visits stack' visited left) : Visits stack (n :: visited) left

end Node

/-! ### Literals in a text -/

/-- The literal that a token is. Strings do not count, as several together are one literal. -/
def Kind.literal? : Kind → Option Expression
  | .integer l => some (.integer l)
  | .float v => some (.float v)
  | .keyword .trueKw => some (.boolean true)
  | .keyword .falseKw => some (.boolean false)
  | .keyword .noneKw => some .none
  | _ => none

/-- The literal that a node is, if a token is that literal. -/
def Node.literal? : Node → Option Expression
  | .expression (.integer l) => some (.integer l)
  | .expression (.float v) => some (.float v)
  | .expression (.boolean b) => some (.boolean b)
  | .expression .none => some .none
  | _ => none

/-- The literals in a node, in the order of the walk. -/
def Node.literals (n : Node) : List Expression :=
  n.walk.filterMap Node.literal?

/-- The nodes that a form stands for. -/
def Form.nodes : (f : Form) → f.Tree → List Node
  | .expression _, x => [.expression x]
  | .items, xs => xs.map .expression
  | .entries, es => (es.flatMap fun (key, value) => [key, value]).map .expression
  | .compared, xs => (xs.map Prod.snd).map .expression
  | .simple, s | .branch, s => [.statement s]
  | .line, ss | .suite, ss | .statement, ss | .block, ss => ss.map .statement
  | .parameters, _ => []
  | .program, m => [.module m]

theorem Node.literals_eq (n : Node) :
    n.literals = n.literal?.toList ++ n.children.flatMap Node.literals := by
  have hchildren : (n.children.flatMap walk).filterMap Node.literal? =
      n.children.flatMap Node.literals := List.filterMap_flatMap ..
  rw [literals, walk_eq, ← hchildren, List.filterMap_cons]
  cases n.literal? <;> rfl

theorem Node.literals_of_literal {n : Node} {x : Expression} (h : n.literal? = some x)
    (hchildren : n.children = []) : [n].flatMap Node.literals = [x] := by
  rw [List.flatMap_singleton, literals_eq, h, hchildren]
  rfl

theorem Node.literals_of_children {n : Node} (h : n.literal? = none) :
    [n].flatMap Node.literals = n.children.flatMap Node.literals := by
  rw [List.flatMap_singleton, literals_eq, h]
  rfl

/-- The literals in a target are those of the expression that it was read as. -/
theorem Target.literals_eq {x : Expression} {t : Target} (h : x.target? = some t) :
    (t.children.map Node.expression).flatMap Node.literals = (Node.expression x).literals := by
  have hx : (Node.expression x).literal? = none ∧ x.children = t.children := by
    unfold Expression.target? at h
    split at h <;> cases h <;> exact ⟨rfl, rfl⟩
  rw [← List.flatMap_singleton Node.literals (.expression x), Node.literals_of_children hx.1,
    Node.children, hx.2]

theorem Comparison.filterMap_kinds (op : Comparison) : op.kinds.filterMap Kind.literal? = [] := by
  cases op <;> rfl

/-- The walk over what is derived meets the literals in the order of their tokens. -/
theorem Derives.literals_eq {f : Form} {ks : List Kind} {t : f.Tree} (h : Derives f ks t) :
    (f.nodes t).flatMap Node.literals = ks.filterMap Kind.literal? := by
  induction h with
  | integer | float | noneLiteral => exact Node.literals_of_literal rfl rfl
  | boolean b => cases b <;> exact Node.literals_of_literal rfl rfl
  | strings =>
    refine (Node.literals_of_children ?_).trans ?_
    · rfl
    · rw [List.filterMap_map]
      exact (List.filterMap_eq_nil_iff.mpr fun _ _ => rfl).symm
  | assign _ ht _ ih ih' =>
    have htarget := Target.literals_eq ht
    refine (Node.literals_of_children ?_).trans ?_
    · rfl
    · simp_all [Form.nodes, Node.children, Statement.children, Kind.literal?, List.filterMap_cons]
  | update _ _ ht _ ih ih' =>
    have htarget := Target.literals_eq ht
    refine (Node.literals_of_children ?_).trans ?_
    · rfl
    · simp_all [Form.nodes, Node.children, Statement.children, Kind.literal?, List.filterMap_cons]
  -- Forms that build a node from those of their parts, which are its children in this order.
  | name | emptyTuple | list | set | dict | call | item | field | power | minus | plus | product
  | sum | comparison | not | and | or | tuple | pass | breakLoop | continueLoop | noResult | result
  | value | plainBranch | chain | choice | function | whileLoop | forLoop | program =>
    refine (Node.literals_of_children ?_).trans ?_
    · rfl
    · simp_all [Form.nodes, Node.children, Expression.children, Statement.children, Kind.literal?,
        Bracket.around, List.filterMap_cons]
  -- Forms that build none.
  | _ =>
    simp_all [Form.nodes, Kind.literal?, Bracket.around, Comparison.filterMap_kinds,
      List.filterMap_cons]

/-- The literals of a program are those of its text, in the order of the text. -/
theorem Module.literals_of_ofText {source : String} {m : Module}
    (h : Module.ofText source = .ok m) :
    ∃ ts, tokens source = .ok ts ∧
      (Node.module m).literals = ts.filterMap fun t => t.kind.literal? := by
  unfold Module.ofText at h
  split at h
  · rename_i ts hts
    have hliterals := (derives_of_ofTokens hts h).literals_eq
    rw [List.filterMap_map, Form.nodes, List.flatMap_singleton] at hliterals
    exact ⟨ts, hts, hliterals⟩
  · cases h

namespace Node

/-! ### The stack -/

theorem visit_reverse (n : Node) (ns : List Node) :
    visit (n :: ns).reverse = some (n, (n.children ++ ns).reverse) := by
  rw [visit, List.reverse_cons, List.getLast?_concat, List.dropLast_concat, List.reverse_append,
    Option.map_some]

theorem visits_walkFrom (ns : List Node) : Visits ns.reverse (walkFrom ns) [] := by
  induction ns using walkFrom.induct with
  | case1 =>
    rw [walkFrom]
    exact .done []
  | case2 n stack ih =>
    rw [walkFrom]
    exact .next (visit_reverse n stack) ih

/-- Visits that stop early can be carried on to the end. -/
theorem Visits.rest {stack visited left whole : List Node} (h : Visits stack visited left)
    (hwhole : Visits stack whole []) : ∃ more, whole = visited ++ more ∧ Visits left more [] := by
  induction h generalizing whole with
  | done stack => exact ⟨whole, rfl, hwhole⟩
  | next hvisit _ ih =>
    cases hwhole with
    | done => cases hvisit
    -- The stack decides which node is visited next.
    | next hvisit' hwhole =>
      obtain ⟨rfl, rfl⟩ := Prod.ext_iff.mp (Option.some.inj (hvisit.symm.trans hvisit'))
      obtain ⟨more, rfl, hmore⟩ := ih hwhole
      exact ⟨more, rfl, hmore⟩

/-- With nothing left nothing is visited. -/
theorem Visits.eq_nil {visited left : List Node} (h : Visits [] visited left) : visited = [] := by
  cases h with
  | done => rfl
  | next hvisit => cases hvisit

/-! ### Paths -/

/-- What is listed for the part with the number `k`, as seen from the node that it is a part of. -/
def under (k : Nat) (occurrences : List (List Nat × Node)) : List (List Nat × Node) :=
  occurrences.map fun (path, d) => (k :: path, d)

theorem map_snd_under (k : Nat) (os : List (List Nat × Node)) :
    (under k os).map Prod.snd = os.map Prod.snd :=
  List.map_map ..

theorem mem_under {k : Nat} {os : List (List Nat × Node)} {path : List Nat} {d : Node} :
    (path, d) ∈ under k os ↔ ∃ rest, path = k :: rest ∧ (rest, d) ∈ os := by
  rw [under, List.mem_map]
  constructor
  · rintro ⟨⟨rest, _⟩, hmem, ⟨⟩⟩
    exact ⟨rest, rfl, hmem⟩
  · rintro ⟨rest, rfl, hmem⟩
    exact ⟨(rest, d), hmem, rfl⟩

theorem pairwise_under {k : Nat} {os : List (List Nat × Node)}
    (h : (os.map Prod.fst).Pairwise (· < ·)) : ((under k os).map Prod.fst).Pairwise (· < ·) := by
  have hpaths : (under k os).map Prod.fst = (os.map Prod.fst).map (k :: ·) := by
    rw [under, List.map_map, List.map_map]
    rfl
  rw [hpaths, List.pairwise_map]
  exact h.imp fun hlt => List.cons_lt_cons_self.mpr hlt

/-- What occurs in the nodes of a list, the first of which has the number `k`, is listed one after
the other. -/
theorem exists_lists_flatMap {ns : List Node} (h : ∀ n ∈ ns, ∃ os, n.Lists os) (k : Nat) :
    ∃ os : List (List Nat × Node), os.map Prod.snd = ns.flatMap Node.walk ∧
      (os.map Prod.fst).Pairwise (· < ·) ∧
      ∀ path d, (path, d) ∈ os ↔
        ∃ i c rest, path = (k + i) :: rest ∧ ns[i]? = some c ∧ c.Occurs rest d := by
  induction ns generalizing k with
  | nil => exact ⟨[], rfl, .nil, fun path d => by simp⟩
  | cons n ns ih =>
    obtain ⟨⟨first, hfirst⟩, hns⟩ := List.forall_mem_cons.mp h
    obtain ⟨more, hwalk, hordered, hexact⟩ := ih hns (k + 1)
    refine ⟨under k first ++ more, ?_, ?_, fun path d => ?_⟩
    · rw [List.map_append, map_snd_under, hfirst.walk, hwalk, List.flatMap_cons]
    · rw [List.map_append, List.pairwise_append]
      refine ⟨pairwise_under hfirst.ordered, hordered, fun p hp q hq => ?_⟩
      obtain ⟨⟨_, d⟩, hd, rfl⟩ := List.mem_map.mp hp
      obtain ⟨⟨_, d'⟩, hd', rfl⟩ := List.mem_map.mp hq
      obtain ⟨rest, rfl, -⟩ := mem_under.mp hd
      obtain ⟨i, c, rest', rfl, -⟩ := (hexact _ _).mp hd'
      exact List.cons_lt_cons_iff.mpr (.inl (by omega))
    · rw [List.mem_append, mem_under, hexact]
      constructor
      · rintro (⟨rest, rfl, hrest⟩ | ⟨i, c, rest, rfl, hc, hoccurs⟩)
        · exact ⟨0, n, rest, rfl, rfl, (hfirst.exact rest d).mp hrest⟩
        · exact ⟨i + 1, c, rest, by rw [Nat.add_right_comm, Nat.add_assoc], hc, hoccurs⟩
      · rintro ⟨i, c, rest, rfl, hc, hoccurs⟩
        cases i with
        | zero =>
          cases hc
          exact .inl ⟨rest, rfl, (hfirst.exact rest d).mpr hoccurs⟩
        | succ i =>
          exact .inr ⟨i, c, rest, by rw [Nat.add_right_comm, Nat.add_assoc], hc, hoccurs⟩

/-- A node is listed before what is listed for its children. -/
theorem exists_lists_of_children {n : Node} (h : ∀ c ∈ n.children, ∃ os, c.Lists os) :
    ∃ os, n.Lists os := by
  obtain ⟨os, hwalk, hordered, hexact⟩ := exists_lists_flatMap h 0
  refine ⟨([], n) :: os, ?_, ?_, fun path d => ?_⟩
  · rw [List.map_cons, hwalk, walk_eq]
  · refine List.pairwise_cons.mpr ⟨fun p hp => ?_, hordered⟩
    obtain ⟨⟨_, d⟩, hd, rfl⟩ := List.mem_map.mp hp
    obtain ⟨i, c, rest, rfl, -⟩ := (hexact _ _).mp hd
    exact List.nil_lt_cons ..
  · rw [List.mem_cons, hexact]
    constructor
    · rintro (heq | ⟨i, c, rest, rfl, hc, hoccurs⟩)
      · cases heq
        exact .self n
      · rw [Nat.zero_add]
        exact .inside (part_iff.mpr hc) hoccurs
    · intro h
      cases h with
      | self => exact .inl rfl
      | inside hpart h => exact .inr ⟨_, _, _, by rw [Nat.zero_add], part_iff.mp hpart, h⟩

/-- The walk lists what occurs in the nodes on a stack. -/
theorem exists_lists {stack : List Node} : ∀ n ∈ stack, ∃ os, n.Lists os := by
  induction stack using walkFrom.induct with
  | case1 => exact List.forall_mem_nil _
  | case2 n stack ih =>
    obtain ⟨hchildren, hstack⟩ := List.forall_mem_append.mp ih
    exact List.forall_mem_cons.mpr ⟨exists_lists_of_children hchildren, hstack⟩

/-- Visits that begin at a node can always be carried on until nothing is left, and have then gone
through its walk: the node, and after it the walks from its children. What occurs in the node is
visited once and in the order of the text, and in a program that was read so are the literals of
its text. -/
theorem walk_preorder (n : Node) :
    (∀ visited, Visits [n] visited [] ↔ visited = n.walk) ∧
      (∀ visited left, Visits [n] visited left → visited <+: n.walk) ∧
      n.walk = n :: n.children.flatMap walk ∧
      (∃ occurrences, n.Lists occurrences) ∧
      ∀ source m, n = .module m → Module.ofText source = .ok m →
        ∃ ts, tokens source = .ok ts ∧
          n.walk.filterMap Node.literal? = ts.filterMap fun t => t.kind.literal? := by
  have hwhole : Visits [n] n.walk [] := visits_walkFrom [n]
  refine ⟨fun visited => ⟨fun h => ?_, fun h => h ▸ hwhole⟩, fun visited left h => ?_, walk_eq n,
    exists_lists n (List.mem_singleton_self n), ?_⟩
  · obtain ⟨more, hwalk, hmore⟩ := h.rest hwhole
    rw [hwalk, hmore.eq_nil, List.append_nil]
  · obtain ⟨more, hwalk, -⟩ := h.rest hwhole
    exact ⟨more, hwalk.symm⟩
  · rintro source m rfl h
    exact Module.literals_of_ofText h

end Node

end Growth.Code
