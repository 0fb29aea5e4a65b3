import Growth.Proofs.Code.Containment
import Growth.Proofs.Code.Preorder
import Growth.Proofs.Features
import Mathlib.Data.Set.Card

/-! The functions of a program are those that it defines first under their names. A scan over its
definitions that keeps a growing list finds each name at its first place in the text, at whatever
depth that is, and how often functions call themselves is told by these definitions alone. -/

namespace Growth

open Code

namespace Code

/-- The statement that defines a function. -/
def Function.definition (f : Function) : Statement :=
  .function f.name f.parameters f.body

/-- The function calls itself at the path, which begins at its definition. -/
def Function.CallsItselfAt (f : Function) (path : List Nat) : Prop :=
  ∃ arguments, (Node.statement f.definition).Occurs path
    (.expression (.call (.name f.name) arguments))

/-- One step of a scan: a function is kept unless one of its name has been kept. -/
def Function.keep (kept : List Function) (f : Function) : List Function :=
  if kept.any (·.name == f.name) then kept else kept ++ [f]

namespace Module

/-- All functions that a program defines, each before those that are defined in it. -/
def definitions (m : Module) : List Function :=
  m.statements.filterMap Function.ofStatement?

/-- The program defines the function at the path. -/
def Defines (m : Module) (path : List Nat) (f : Function) : Prop :=
  (Node.module m).Occurs path (.statement f.definition)

/-- The program defines the function at the path, and none of its name before. -/
structure DefinesFirst (m : Module) (path : List Nat) (f : Function) : Prop where
  defines : m.Defines path f
  first : ∀ path' g, m.Defines path' g → g.name = f.name → ¬path' < path

/-- How often functions call themselves that the program defines first under their names. -/
def selfCallCounts (m : Module) : Set Nat :=
  {n | ∃ f, (∃ path, m.DefinesFirst path f) ∧ {path | f.CallsItselfAt path}.encard = n}

/-- The functions of a program with their paths. They are those that are defined first under their
names, in the order of the text. -/
structure ListsFirst (m : Module) (placed : List (List Nat × Function)) : Prop where
  functions : placed.map Prod.snd = m.functions
  ordered : (placed.map Prod.fst).Pairwise (· < ·)
  exact : ∀ path f, (path, f) ∈ placed ↔ m.DefinesFirst path f

end Module

/-! ### What a walk finds -/

/-- What a walk finds at nodes is found at paths in the order of the text. -/
theorem Node.exists_placed {α : Type} (n : Node) (g : Node → Option α) :
    ∃ placed : List (List Nat × α), placed.map Prod.snd = n.walk.filterMap g ∧
      (placed.map Prod.fst).Pairwise (· < ·) ∧
      ∀ path a, (path, a) ∈ placed ↔ ∃ d, n.Occurs path d ∧ g d = some a := by
  obtain ⟨os, hwalk, hordered, hexact⟩ := exists_lists n (List.mem_singleton_self n)
  refine ⟨os.filterMap fun o => (g o.2).map (o.1, ·), ?_, ?_, fun path a => ?_⟩
  · rw [← hwalk, List.map_filterMap, List.filterMap_map]
    refine congrArg (List.filterMap · os) (funext fun o => ?_)
    rw [Option.map_map]
    exact Option.map_id' ..
  · rw [List.pairwise_map] at hordered ⊢
    refine hordered.filterMap _ fun o o' hlt p hp p' hp' => ?_
    obtain ⟨a, -, rfl⟩ := Option.map_eq_some_iff.mp hp
    obtain ⟨a', -, rfl⟩ := Option.map_eq_some_iff.mp hp'
    exact hlt
  · rw [List.mem_filterMap]
    constructor
    · rintro ⟨⟨path', d⟩, hmem, hfound⟩
      obtain ⟨a', ha, heq⟩ := Option.map_eq_some_iff.mp hfound
      cases heq
      exact ⟨d, (hexact _ _).mp hmem, ha⟩
    · rintro ⟨d, hoccurs, ha⟩
      exact ⟨(path, d), (hexact _ _).mpr hoccurs, by rw [ha, Option.map_some]⟩

namespace Function

theorem ofStatement?_eq_some_iff {s : Statement} {f : Function} :
    ofStatement? s = some f ↔ s = f.definition := by
  constructor
  · intro h
    cases s with
    | function =>
      cases h
      rfl
    | _ => cases h
  · rintro rfl
    rfl

theorem callArguments?_eq_some_iff {f : Function} {x : Expression} {arguments : List Expression} :
    f.callArguments? x = some arguments ↔ x = .call (.name f.name) arguments := by
  unfold callArguments?
  split
  · rename_i n _
    by_cases hn : n = f.name <;> simp [hn]
  · rename_i hx
    refine ⟨nofun, ?_⟩
    rintro rfl
    exact absurd rfl (hx _ _)

variable {kept : List Function} {f : Function}

/-! ### One step of the scan -/

theorem keep_of_mem (h : f.name ∈ kept.map name) : keep kept f = kept := by
  rw [keep, if_pos]
  simpa using h

theorem keep_of_not_mem (h : f.name ∉ kept.map name) : keep kept f = kept ++ [f] := by
  rw [keep, if_neg]
  simpa using h

theorem mem_names_keep_iff {n : String} :
    n ∈ (keep kept f).map name ↔ n ∈ kept.map name ∨ n = f.name := by
  by_cases h : f.name ∈ kept.map name
  · rw [keep_of_mem h]
    refine ⟨.inl, ?_⟩
    rintro (hn | rfl)
    · exact hn
    · exact h
  · rw [keep_of_not_mem h, List.map_append, List.mem_append, List.map_singleton,
      List.mem_singleton]

theorem nodup_keep (h : (kept.map name).Nodup) (f : Function) :
    ((keep kept f).map name).Nodup := by
  by_cases hf : f.name ∈ kept.map name
  · rwa [keep_of_mem hf]
  · rw [keep_of_not_mem hf, List.map_append, List.map_singleton, ← List.concat_eq_append]
    exact h.concat hf

/-! ### The whole scan -/

theorem mem_names_foldl_keep_iff {fs : List Function} {n : String} :
    n ∈ (fs.foldl keep kept).map name ↔ n ∈ kept.map name ∨ n ∈ fs.map name := by
  induction fs generalizing kept with
  | nil => simp
  | cons f fs ih =>
    rw [List.foldl_cons, ih, mem_names_keep_iff, List.map_cons, List.mem_cons, or_assoc]

theorem nodup_foldl_keep (h : (kept.map name).Nodup) (fs : List Function) :
    ((fs.foldl keep kept).map name).Nodup := by
  induction fs generalizing kept with
  | nil => exact h
  | cons f fs ih => exact ih (nodup_keep h f)

theorem foldl_keep_of_mem {fs : List Function} (h : ∀ f ∈ fs, f.name ∈ kept.map name) :
    fs.foldl keep kept = kept := by
  induction fs with
  | nil => rfl
  | cons f fs ih =>
    obtain ⟨hf, hfs⟩ := List.forall_mem_cons.mp h
    rw [List.foldl_cons, keep_of_mem hf, ih hfs]

/-- Functions whose names have all come before change nothing. -/
theorem foldl_keep_insert {front more : List Function}
    (h : ∀ f ∈ more, ∃ g ∈ front, g.name = f.name) (kept back : List Function) :
    (front ++ more ++ back).foldl keep kept = (front ++ back).foldl keep kept := by
  have hmore : more.foldl keep (front.foldl keep kept) = front.foldl keep kept :=
    foldl_keep_of_mem fun f hf => mem_names_foldl_keep_iff.mpr (.inr (List.mem_map.mpr (h f hf)))
  rw [List.foldl_append, List.foldl_append, hmore, List.foldl_append]

theorem firsts_congr {known known' : List String} (h : ∀ n, n ∈ known ↔ n ∈ known')
    (fs : List Function) : firsts known fs = firsts known' fs := by
  induction fs generalizing known known' with
  | nil => rfl
  | cons f fs ih =>
    have hmore : firsts (f.name :: known) fs = firsts (f.name :: known') fs :=
      ih fun n => by rw [List.mem_cons, List.mem_cons, h]
    rw [firsts, firsts, ih h, hmore]
    simp only [h]

/-- The scan adds the functions with new names, each name at its first function. -/
theorem foldl_keep (kept fs : List Function) :
    fs.foldl keep kept = kept ++ firsts (kept.map name) fs := by
  induction fs generalizing kept with
  | nil => rw [List.foldl_nil, firsts, List.append_nil]
  | cons f fs ih =>
    rw [List.foldl_cons, ih, firsts]
    split
    · rename_i hf
      rw [keep_of_mem hf]
    · rename_i hf
      have hknown : ∀ n, n ∈ (kept ++ [f]).map name ↔ n ∈ f.name :: kept.map name := by
        intro n
        rw [List.map_append, List.mem_append, List.map_singleton, List.mem_singleton,
          List.mem_cons, or_comm]
      rw [keep_of_not_mem hf, firsts_congr hknown, List.append_assoc, List.singleton_append]

/-! ### Functions at places -/

/-- Of functions at places, one of them has none of its name before it. -/
def IsFirst (fs : List (List Nat × Function)) (path : List Nat) (f : Function) : Prop :=
  (path, f) ∈ fs ∧ ∀ path' g, (path', g) ∈ fs → g.name = f.name → ¬path' < path

theorem isFirst_cons_iff {first path : List Nat} {d : Function} {fs : List (List Nat × Function)}
    (hfirst : ∀ path' g, (path', g) ∈ fs → first < path') :
    IsFirst ((first, d) :: fs) path f ↔
      (path, f) = (first, d) ∨ d.name ≠ f.name ∧ IsFirst fs path f := by
  constructor
  · rintro ⟨hmem, hnone⟩
    rcases List.mem_cons.mp hmem with heq | hmem
    · exact .inl heq
    · refine .inr ⟨fun hname => ?_, hmem, fun path' g hg => hnone path' g (.tail _ hg)⟩
      exact hnone first d (.head _) hname (hfirst path f hmem)
  · rintro (heq | ⟨hname, hmem, hnone⟩)
    · cases heq
      refine ⟨.head _, fun path' g hg _ => ?_⟩
      rcases List.mem_cons.mp hg with heq | hg
      · cases heq
        exact List.lt_irrefl _
      · exact List.lt_asymm (hfirst path' g hg)
    · refine ⟨.tail _ hmem, fun path' g hg hg' => ?_⟩
      rcases List.mem_cons.mp hg with heq | hg
      · cases heq
        exact absurd hg' hname
      · exact hnone path' g hg hg'

/-- Of functions at places in the order of the text, those that are kept have none of their name
before them. -/
theorem exists_firsts (known : List String) {fs : List (List Nat × Function)}
    (hordered : (fs.map Prod.fst).Pairwise (· < ·)) :
    ∃ placed : List (List Nat × Function), placed.Sublist fs ∧
      placed.map Prod.snd = firsts known (fs.map Prod.snd) ∧
      ∀ path f, (path, f) ∈ placed ↔ f.name ∉ known ∧ IsFirst fs path f := by
  induction fs generalizing known with
  | nil => exact ⟨[], .slnil, rfl, fun path f => by simp [IsFirst]⟩
  | cons d fs ih =>
    obtain ⟨first, d⟩ := d
    rw [List.map_cons, List.pairwise_cons] at hordered
    obtain ⟨hfirst, hordered⟩ := hordered
    have hbefore : ∀ path g, (path, g) ∈ fs → first < path :=
      fun path g h => hfirst path (List.mem_map.mpr ⟨(path, g), h, rfl⟩)
    rw [List.map_cons, firsts]
    by_cases hd : d.name ∈ known
    · obtain ⟨placed, hsub, hfirsts, hexact⟩ := ih known hordered
      refine ⟨placed, hsub.cons _, by rw [hfirsts, if_pos hd], fun path f => ?_⟩
      rw [hexact, isFirst_cons_iff hbefore]
      refine and_congr_right fun hf => ⟨fun h => .inr ⟨fun heq => hf (heq ▸ hd), h⟩, ?_⟩
      rintro (heq | ⟨-, h⟩)
      · cases heq
        exact absurd hd hf
      · exact h
    · obtain ⟨placed, hsub, hfirsts, hexact⟩ := ih (d.name :: known) hordered
      refine ⟨(first, d) :: placed, hsub.cons_cons _, by rw [List.map_cons, hfirsts, if_neg hd],
        fun path f => ?_⟩
      rw [List.mem_cons, hexact, isFirst_cons_iff hbefore, List.mem_cons, not_or]
      constructor
      · rintro (heq | ⟨⟨hname, hf⟩, h⟩)
        · cases heq
          exact ⟨hd, .inl rfl⟩
        · exact ⟨hf, .inr ⟨Ne.symm hname, h⟩⟩
      · rintro ⟨hf, heq | ⟨hname, h⟩⟩
        · exact .inl heq
        · exact .inr ⟨⟨Ne.symm hname, hf⟩, h⟩

/-! ### Calls of functions by themselves -/

/-- A function has as many calls of itself as there are paths to such calls. -/
theorem encard_callsItselfAt (f : Function) :
    {path | f.CallsItselfAt path}.encard = f.selfCalls.length := by
  obtain ⟨placed, hcalls, hordered, hexact⟩ := (Node.statement f.definition).exists_placed
    fun n => n.expression?.bind f.callArguments?
  have hnodup : (placed.map Prod.fst).Pairwise (· ≠ ·) :=
    hordered.imp fun hlt => by
      rintro rfl
      exact List.lt_irrefl _ hlt
  have hset : {path | f.CallsItselfAt path} =
      ((placed.map Prod.fst).toFinset : Set (List Nat)) := by
    ext path
    simp only [Set.mem_ofPred_eq, List.coe_toFinset, List.mem_map, Prod.exists, exists_and_right,
      exists_eq_right, hexact, CallsItselfAt]
    refine exists_congr fun arguments => ?_
    constructor
    · intro h
      exact ⟨_, h, callArguments?_eq_some_iff.mpr rfl⟩
    · rintro ⟨d, hd, hcall⟩
      obtain ⟨x, hx, hcall⟩ := Option.bind_eq_some_iff.mp hcall
      obtain rfl := Node.expression?_eq_some_iff.mp hx
      rwa [callArguments?_eq_some_iff.mp hcall] at hd
  have hwalk : f.selfCalls = placed.map Prod.snd := by
    have hself : (Node.statement f.definition).walk =
        .statement f.definition :: nodesIn f.body := by
      rw [Node.walk_eq, nodesIn_eq]
      rfl
    rw [selfCalls, List.filterMap_filterMap, hcalls, hself, List.filterMap_cons_none rfl]
  rw [hset, Set.encard_coe_eq_coe_finsetCard, List.toFinset_card_of_nodup hnodup, hwalk,
    List.length_map, List.length_map]

end Function

/-! ### The functions of a program -/

namespace Module

/-- The definitions of a program are at places in the order of the text. -/
theorem exists_definitions (m : Module) :
    ∃ placed : List (List Nat × Function), placed.map Prod.snd = m.definitions ∧
      (placed.map Prod.fst).Pairwise (· < ·) ∧
      ∀ path f, (path, f) ∈ placed ↔ m.Defines path f := by
  obtain ⟨placed, hfound, hordered, hexact⟩ := (Node.module m).exists_placed
    fun n => n.statement?.bind Function.ofStatement?
  refine ⟨placed, ?_, hordered, fun path f => ?_⟩
  · rw [hfound, definitions, statements, List.filterMap_filterMap]
    rfl
  · rw [hexact]
    constructor
    · rintro ⟨d, hd, hf⟩
      obtain ⟨s, hs, hf⟩ := Option.bind_eq_some_iff.mp hf
      obtain rfl := Node.statement?_eq_some_iff.mp hs
      rwa [Function.ofStatement?_eq_some_iff.mp hf] at hd
    · intro h
      exact ⟨_, h, Function.ofStatement?_eq_some_iff.mpr rfl⟩

theorem exists_listsFirst (m : Module) : ∃ placed, m.ListsFirst placed := by
  obtain ⟨fs, hdefinitions, hordered, hexact⟩ := m.exists_definitions
  obtain ⟨placed, hsub, hfirsts, hplaced⟩ := Function.exists_firsts [] hordered
  refine ⟨placed, ?_, hordered.sublist (hsub.map _), fun path f => ?_⟩
  · rw [hfirsts, hdefinitions]
    rfl
  · have hfirst : Function.IsFirst fs path f ↔ m.DefinesFirst path f := by
      simp only [Function.IsFirst, hexact]
      exact ⟨fun h => ⟨h.1, h.2⟩, fun h => ⟨h.1, h.2⟩⟩
    rw [hplaced, hfirst]
    exact and_iff_right nofun

theorem mem_functions_iff {m : Module} {f : Function} :
    f ∈ m.functions ↔ ∃ path, m.DefinesFirst path f := by
  obtain ⟨placed, h⟩ := m.exists_listsFirst
  rw [← h.functions, List.mem_map]
  constructor
  · rintro ⟨⟨path, f⟩, hf, rfl⟩
    exact ⟨path, (h.exact path f).mp hf⟩
  · rintro ⟨path, hf⟩
    exact ⟨(path, f), (h.exact path f).mpr hf, rfl⟩

/-- A scan over all definitions of a program finds its functions. -/
theorem foldl_keep_definitions (m : Module) : m.definitions.foldl Function.keep [] = m.functions :=
  Function.foldl_keep [] m.definitions

theorem exists_of_defines {m : Module} {path : List Nat} {f : Function} (h : m.Defines path f) :
    ∃ g ∈ m.functions, g.name = f.name := by
  obtain ⟨fs, hdefinitions, -, hexact⟩ := m.exists_definitions
  have hf : f ∈ m.definitions :=
    hdefinitions ▸ List.mem_map.mpr ⟨(path, f), (hexact path f).mpr h, rfl⟩
  rw [← List.mem_map, ← foldl_keep_definitions, Function.mem_names_foldl_keep_iff]
  exact .inr (List.mem_map_of_mem hf)

end Module

end Code

/-! ### The most calls -/

namespace Features

theorem isGreatest_max? (ns : List Nat) :
    IsGreatest (insert 0 {n | n ∈ ns}) (ns.max?.getD 0) := by
  cases h : ns.max? with
  | none =>
    rw [List.max?_eq_none_iff] at h
    subst h
    simp
  | some most =>
    obtain ⟨hmem, hmost⟩ := List.max?_eq_some_iff.mp h
    refine ⟨.inr hmem, ?_⟩
    rintro n (rfl | hn)
    · exact Nat.zero_le _
    · exact hmost n hn

theorem isGreatest_selfCalls (m : Module) : IsGreatest (insert 0 m.selfCallCounts)
    ((m.functions.map fun f => f.selfCalls.length).max?.getD 0) := by
  have hcounts : m.selfCallCounts = {n | n ∈ m.functions.map fun f => f.selfCalls.length} := by
    ext n
    simp only [Module.selfCallCounts, Set.mem_ofPred_eq, List.mem_map,
      Function.encard_callsItselfAt, Nat.cast_inj, Module.mem_functions_iff]
  rw [hcounts]
  exact isGreatest_max? _

theorem selfCallsOf_congr {m m' : Module} (h : m'.selfCallCounts = m.selfCallCounts) :
    selfCallsOf m' = selfCallsOf m := by
  have hgreatest := isGreatest_selfCalls m'
  rw [h] at hgreatest
  rw [selfCallsOf, hgreatest.unique (isGreatest_selfCalls m), selfCallsOf]

end Features

/-- The functions of a program are what a scan over its definitions keeps: those that are defined
first under their names, at whatever depth, in the order of the text. They have different names, and
every name that is defined has one. The most calls of itself that one of them has, but no more than
255, is a feature of the program. It is the same for programs with the same first definitions, and
definitions under names that were defined before change nothing. -/
theorem Code.Module.functions_first (m : Module) :
    m.definitions.foldl Function.keep [] = m.functions ∧
      (∃ placed, m.ListsFirst placed) ∧ (m.functions.map Function.name).Nodup ∧
      (∀ path f, m.Defines path f → ∃ g ∈ m.functions, g.name = f.name) ∧
      (∃ k, IsGreatest (insert 0 m.selfCallCounts) k ∧ Features.selfCallsOf m = min k 255) ∧
      (∀ m' : Module, (∀ f, (∃ path, m'.DefinesFirst path f) ↔ ∃ path, m.DefinesFirst path f) →
        Features.selfCallsOf m' = Features.selfCallsOf m) ∧
      ∀ (m' : Module) (front more back : List Function), m.definitions = front ++ back →
        m'.definitions = front ++ more ++ back → (∀ f ∈ more, ∃ g ∈ front, g.name = f.name) →
        m'.functions = m.functions ∧ Features.selfCallsOf m' = Features.selfCallsOf m := by
  have hnone : (([] : List Function).map Function.name).Nodup := List.nodup_nil
  have hnodup : (m.functions.map Function.name).Nodup := by
    rw [← foldl_keep_definitions]
    exact Function.nodup_foldl_keep hnone m.definitions
  refine ⟨m.foldl_keep_definitions, m.exists_listsFirst, hnodup, fun _ _ => exists_of_defines,
    ⟨_, Features.isGreatest_selfCalls m, rfl⟩, fun m' h => ?_,
    fun m' front more back hm hm' hmore => ?_⟩
  · refine Features.selfCallsOf_congr ?_
    simp only [selfCallCounts, h]
  · have hfunctions : m'.functions = m.functions := by
      rw [← foldl_keep_definitions, ← foldl_keep_definitions, hm, hm',
        Function.foldl_keep_insert hmore]
    refine ⟨hfunctions, ?_⟩
    rw [Features.selfCallsOf, hfunctions, Features.selfCallsOf]

/-- A second definition under the same name does not count. -/
example : Features.selfCallsOf ⟨[.function "f" [] [.pass],
    .function "f" [] [.expression (.call (.name "f") [])]]⟩ = 0 := by cbv

end Growth
