import Growth.Proofs.Code.Containment
import Growth.Proofs.Features
import Mathlib.Data.List.Chain
import Mathlib.Order.Bounds.Defs

/-! How deep loops are nested. The depth that is found from the statements upwards is the length of
the longest chain of loops, each of which has the next one in its body. -/

namespace Growth

open Code

namespace Code

/-- A loop has the statement in its body, at any depth. -/
def Statement.Repeats (s t : Statement) : Prop :=
  ∃ body, s.repeated? = some body ∧ ∃ u ∈ body, (Node.statement u).Contains (.statement t)

/-- Loops in the statements, at any depth, each of which has the next one in its body. -/
structure Nested (ss loops : List Statement) : Prop where
  areLoops : ∀ s ∈ loops, s.isLoop = true
  within : ∀ s ∈ loops, ∃ u ∈ ss, (Node.statement u).Contains (.statement s)
  inside : loops.IsChain Statement.Repeats

namespace Nested

variable {ss ss' loops : List Statement}

theorem nil : Nested ss [] :=
  ⟨List.forall_mem_nil _, List.forall_mem_nil _, .nil⟩

theorem mono (h : Nested ss loops) (hss : statementsIn ss ⊆ statementsIn ss') : Nested ss' loops :=
  ⟨h.areLoops, fun s hs => mem_statementsIn_iff.mp (hss (mem_statementsIn_iff.mpr (h.within s hs))),
    h.inside⟩

theorem cons {s : Statement} {body : List Statement} (hbody : s.repeated? = some body)
    (h : Nested body loops) : Nested [s] (s :: loops) := by
  refine ⟨List.forall_mem_cons.mpr ⟨Statement.isLoop_iff.mpr ⟨body, hbody⟩, h.areLoops⟩,
    fun t ht => ?_, List.isChain_cons.mpr ⟨fun t ht => ?_, h.inside⟩⟩
  · rw [← mem_statementsIn_iff, statementsIn_cons, statementsIn_nil, List.append_nil,
      Statement.inner_of_repeated hbody]
    refine List.mem_cons.mpr ((List.mem_cons.mp ht).imp_right fun ht => ?_)
    exact mem_statementsIn_iff.mpr (h.within t ht)
  · exact ⟨body, hbody, h.within t (List.mem_of_mem_head? ht)⟩

end Nested

end Code

namespace Features

/-! ### No chain is longer -/

theorem depth_of_repeated {s : Statement} {body : List Statement} (h : s.repeated? = some body) :
    depth s = depths body + 1 := by
  cases s with
  | whileLoop | forLoop =>
    cases h
    rw [depth]
  | _ => cases h

mutual

theorem depth_le_of_inner : (s : Statement) → ∀ t ∈ statementsIn s.inner, depth t ≤ depth s
  | .whileLoop _ body | .forLoop _ _ body => fun t ht => by
    rw [depth]
    exact Nat.le_succ_of_le (depths_le_of_mem body t ht)
  | .function _ _ body => fun t ht => by
    rw [depth]
    exact depths_le_of_mem body t ht
  | .branch _ body other => fun t ht => by
    rw [Statement.inner, statementsIn_append] at ht
    rw [depth]
    rcases List.mem_append.mp ht with ht | ht
    · exact Nat.le_trans (depths_le_of_mem body t ht) (Nat.le_max_left _ _)
    · exact Nat.le_trans (depths_le_of_mem other t ht) (Nat.le_max_right _ _)
  | .assign _ _ | .update _ _ _ | .result _ | .breakLoop | .continueLoop | .pass
  | .expression _ => fun t ht => by
    cases ht

/-- No statement among others, or inside them, is deeper than they are. -/
theorem depths_le_of_mem : (ss : List Statement) → ∀ t ∈ statementsIn ss, depth t ≤ depths ss
  | [] => fun t ht => by
    cases ht
  | s :: ss => fun t ht => by
    rw [statementsIn_cons] at ht
    rw [depths]
    rcases List.mem_cons.mp ht with rfl | ht
    · exact Nat.le_max_left _ _
    rcases List.mem_append.mp ht with ht | ht
    · exact Nat.le_trans (depth_le_of_inner s t ht) (Nat.le_max_left _ _)
    · exact Nat.le_trans (depths_le_of_mem ss t ht) (Nat.le_max_right _ _)

end

/-- A chain of loops that begins in the statements is not longer than they are deep. -/
theorem length_le_depths {ss loops : List Statement} (hloops : ∀ s ∈ loops, s.isLoop = true)
    (hinside : loops.IsChain Statement.Repeats) (hfirst : ∀ s ∈ loops.head?, s ∈ statementsIn ss) :
    loops.length ≤ depths ss := by
  -- on the chain; the next loop begins a chain in the body of the first
  induction loops generalizing ss with
  | nil => exact Nat.zero_le _
  | cons s loops ih =>
    obtain ⟨hs, hloops⟩ := List.forall_mem_cons.mp hloops
    obtain ⟨hnext, hinside⟩ := List.isChain_cons.mp hinside
    obtain ⟨body, hbody⟩ := Statement.isLoop_iff.mp hs
    have hdepth : depths body + 1 ≤ depths ss := by
      rw [← depth_of_repeated hbody]
      exact depths_le_of_mem ss s (hfirst s rfl)
    have hrest : loops.length ≤ depths body := by
      refine ih hloops hinside fun t ht => ?_
      obtain ⟨body', hbody', ht⟩ := hnext t ht
      rw [Option.some.inj (hbody.symm.trans hbody')]
      exact mem_statementsIn_iff.mpr ht
    exact Nat.le_trans (Nat.succ_le_succ hrest) hdepth

/-! ### Some chain is as long -/

/-- Of two chains the longer one is a chain of the statements of both. -/
theorem exists_nested_max {a b ss : List Statement} {j k : Nat}
    (ha : statementsIn a ⊆ statementsIn ss) (hb : statementsIn b ⊆ statementsIn ss)
    (hj : ∃ loops, Nested a loops ∧ loops.length = j)
    (hk : ∃ loops, Nested b loops ∧ loops.length = k) :
    ∃ loops, Nested ss loops ∧ loops.length = max j k := by
  rcases Nat.le_total j k with hle | hle
  · obtain ⟨loops, h, hlength⟩ := hk
    exact ⟨loops, h.mono hb, by rw [hlength, Nat.max_eq_right hle]⟩
  · obtain ⟨loops, h, hlength⟩ := hj
    exact ⟨loops, h.mono ha, by rw [hlength, Nat.max_eq_left hle]⟩

theorem statementsIn_subset_of_inner {s : Statement} {body : List Statement}
    (h : statementsIn body ⊆ statementsIn s.inner) : statementsIn body ⊆ statementsIn [s] := by
  rw [statementsIn_cons, statementsIn_nil, List.append_nil]
  exact List.subset_cons_of_subset s h

mutual

theorem exists_nested_statement :
    (s : Statement) → ∃ loops, Nested [s] loops ∧ loops.length = depth s
  | .whileLoop _ body | .forLoop _ _ body => by
    obtain ⟨loops, h, hlength⟩ := exists_nested body
    exact ⟨_, h.cons rfl, by rw [List.length_cons, hlength, depth]⟩
  | .function name parameters body => by
    obtain ⟨loops, h, hlength⟩ := exists_nested body
    exact ⟨loops, h.mono (statementsIn_subset_of_inner fun _ => id), by rw [hlength, depth]⟩
  | .branch condition body other => by
    rw [depth]
    refine exists_nested_max (statementsIn_subset_of_inner ?_) (statementsIn_subset_of_inner ?_)
      (exists_nested body) (exists_nested other)
    · rw [Statement.inner, statementsIn_append]
      exact List.subset_append_left _ _
    · rw [Statement.inner, statementsIn_append]
      exact List.subset_append_right _ _
  | .assign _ _ | .update _ _ _ | .result _ | .breakLoop | .continueLoop | .pass
  | .expression _ => ⟨[], .nil, rfl⟩

theorem exists_nested :
    (ss : List Statement) → ∃ loops, Nested ss loops ∧ loops.length = depths ss
  | [] => ⟨[], .nil, rfl⟩
  | s :: ss => by
    have hsplit : statementsIn (s :: ss) = statementsIn [s] ++ statementsIn ss :=
      statementsIn_append [s] ss
    rw [depths]
    refine exists_nested_max ?_ ?_ (exists_nested_statement s) (exists_nested ss)
    · rw [hsplit]
      exact List.subset_append_left _ _
    · rw [hsplit]
      exact List.subset_append_right _ _

end

theorem isGreatest_depths (ss : List Statement) :
    IsGreatest {k | ∃ loops, Nested ss loops ∧ loops.length = k} (depths ss) := by
  refine ⟨exists_nested ss, ?_⟩
  rintro k ⟨loops, h, rfl⟩
  refine length_le_depths h.areLoops h.inside fun s hs => ?_
  exact mem_statementsIn_iff.mpr (h.within s (List.mem_of_mem_head? hs))

/-- How deep the loops of a program are nested: as many as the longest chain of loops, each of which
has the next one in its body, but no more than 255. Programs one behind the other are as deep as the
deeper one. -/
theorem nestingOf_longest (m : Module) :
    (∃ k, IsGreatest {k | ∃ loops, Nested m.body loops ∧ loops.length = k} k ∧
      nestingOf m = min k 255) ∧
    ∀ added, nestingOf ⟨m.body ++ added⟩ = max (nestingOf m) (nestingOf ⟨added⟩) := by
  refine ⟨⟨depths m.body, isGreatest_depths m.body, rfl⟩, fun added => ?_⟩
  simp only [nestingOf, capped, depths_append]
  omega

end Features

end Growth
