import Growth.Order
import Growth.Proofs.Code.Walk

/-! Statements that are added to a program make its order of growth greater or leave it, but for two
ways in which they make it less. -/

namespace Growth

open Code

/-! ### The rules -/

namespace Order

/-- The order of a program whose runs come to their normal end: `recursion` is what its recursion
gives, and of its loops it is known whether one is unbounded, whether one halves, and how deep they
are. -/
def ofRules (recursion : Order) (unbounded halving : Bool) (nesting : Nat) : Order :=
  if recursion = exponential ∨ unbounded = true then exponential
  else if recursion = polynomial ∨ 1 < nesting then polynomial
  else if halving = true then logarithmic
  else if 0 < nesting then linear
  else constant

/-- Recursion alone makes no program logarithmic or linear. -/
theorem ofRecursion_cases (m : Module) :
    ofRecursion m = constant ∨ ofRecursion m = polynomial ∨ ofRecursion m = exponential := by
  unfold ofRecursion
  dsimp only
  split
  · exact .inl rfl
  · split
    · exact .inr (.inl rfl)
    · exact .inr (.inr rfl)

theorem raised_constant (f : Features) (loops : List Statement) :
    raised constant f loops =
      ofRules constant (loops.any (isUnbounded f)) (loops.any Statement.halves) f.nesting := by
  unfold raised ofRules
  cases loops.any (isUnbounded f)
  · cases loops.any Statement.halves
    · by_cases h0 : 0 < f.nesting <;> by_cases h1 : 1 < f.nesting <;> simp [h0, h1, Order.max, rank]
    · by_cases h1 : 1 < f.nesting <;> simp [h1, Order.max, rank]
  · simp

theorem raised_polynomial (f : Features) (loops : List Statement) :
    raised polynomial f loops =
      ofRules polynomial (loops.any (isUnbounded f)) (loops.any Statement.halves) f.nesting := by
  unfold raised ofRules
  cases loops.any (isUnbounded f) <;> simp [Order.max, rank]

theorem classify_eq (m : Module) {f : Features} (h : f.abnormalEnd ≠ 1) :
    classify m f = ofRules (ofRecursion m)
      ((m.statements.filter Statement.isLoop).any (isUnbounded f))
      ((m.statements.filter Statement.isLoop).any Statement.halves) f.nesting := by
  unfold classify
  rw [if_neg h]
  rcases ofRecursion_cases m with hm | hm | hm <;> rw [hm]
  · exact raised_constant f _
  · exact raised_polynomial f _
  · simp [ofRules]

section Rules

variable {recursion recursion' : Order} {unbounded unbounded' halving halving' : Bool}
  {nesting nesting' : Nat}

theorem ofRules_top (h : recursion = exponential ∨ unbounded = true) :
    ofRules recursion unbounded halving nesting = exponential := by
  rw [ofRules, if_pos h]

theorem ofRules_high (h : ¬(recursion = exponential ∨ unbounded = true))
    (hhigh : recursion = polynomial ∨ 1 < nesting) :
    ofRules recursion unbounded halving nesting = polynomial := by
  rw [ofRules, if_neg h, if_pos hhigh]

theorem rank_ofRules_le (h : ¬(recursion = exponential ∨ unbounded = true)) :
    (ofRules recursion unbounded halving nesting).rank ≤ 3 := by
  rw [ofRules, if_neg h]
  split
  · exact Nat.le_refl 3
  · split
    · decide
    · split <;> decide

/-- Without recursion and with no loop inside another, what counts is whether a loop halves. -/
theorem ofRules_low (h : nesting ≤ 1) : ofRules constant false halving nesting =
    if halving = true then logarithmic else if nesting = 1 then linear else constant := by
  have hhigh : ¬(constant = polynomial ∨ 1 < nesting) := by
    rintro (hc | hn)
    · exact nomatch hc
    · omega
  have hnesting : 0 < nesting ↔ nesting = 1 := by omega
  rw [ofRules, if_neg (by simp), if_neg hhigh]
  simp only [hnesting]

/-- If all that the rules look at grows, but for the bound of the loops, the order gets less when the
loops become bounded, or when a first loop that halves makes a single loop logarithmic. -/
theorem ofRules_lt_iff (hrecursion : recursion.rank ≤ recursion'.rank)
    (hcases : recursion' = constant ∨ recursion' = polynomial ∨ recursion' = exponential)
    (hhalving : halving = true → halving' = true) (hnesting : nesting ≤ nesting') :
    (ofRules recursion' unbounded' halving' nesting').rank <
        (ofRules recursion unbounded halving nesting).rank ↔
      recursion' ≠ exponential ∧ unbounded' = false ∧ (unbounded = true ∨
        recursion' = constant ∧ nesting = 1 ∧ nesting' = 1 ∧ halving = false ∧ halving' = true) := by
  by_cases htop' : recursion' = exponential ∨ unbounded' = true
  · have hle : (ofRules recursion unbounded halving nesting).rank ≤ 4 := by
      cases ofRules recursion unbounded halving nesting <;> decide
    rw [ofRules_top htop']
    constructor
    · intro hlt
      exact absurd hlt (Nat.not_lt.mpr hle)
    · rintro ⟨hne, hbounded, -⟩
      rcases htop' with he | hu
      · exact absurd he hne
      · exact nomatch hbounded.symm.trans hu
  have hle' : (ofRules recursion' unbounded' halving' nesting').rank ≤ 3 := rank_ofRules_le htop'
  obtain ⟨hne, hbounded⟩ := not_or.mp htop'
  rw [Bool.not_eq_true] at hbounded
  have hnot : recursion ≠ exponential := by
    rintro rfl
    rcases hcases with rfl | rfl | rfl
    · exact absurd hrecursion (by decide)
    · exact absurd hrecursion (by decide)
    · exact hne rfl
  by_cases hunbounded : unbounded = true
  · rw [ofRules_top (.inr hunbounded)]
    exact ⟨fun _ => ⟨hne, hbounded, .inl hunbounded⟩, fun _ => Nat.lt_succ_of_le hle'⟩
  have htop : ¬(recursion = exponential ∨ unbounded = true) := not_or.mpr ⟨hnot, hunbounded⟩
  have hle : (ofRules recursion unbounded halving nesting).rank ≤ 3 := rank_ofRules_le htop
  by_cases hhigh' : recursion' = polynomial ∨ 1 < nesting'
  · rw [ofRules_high htop' hhigh']
    constructor
    · intro hlt
      exact absurd hlt (Nat.not_lt.mpr hle)
    · rintro ⟨-, -, hu | ⟨hc, -, hn, -⟩⟩
      · exact absurd hu hunbounded
      · rcases hhigh' with hp | hn'
        · exact nomatch hc.symm.trans hp
        · omega
  -- what is left has no recursion, and no loop inside another
  obtain ⟨hnp, hn'⟩ := not_or.mp hhigh'
  obtain rfl : recursion' = constant := by
    rcases hcases with h | h | h
    · exact h
    · exact absurd h hnp
    · exact absurd h hne
  obtain rfl : recursion = constant := by
    cases recursion with
    | constant => rfl
    | _ => exact absurd hrecursion (by decide)
  rw [Bool.not_eq_true] at hunbounded
  subst hbounded hunbounded
  rw [ofRules_low (by omega), ofRules_low (by omega)]
  cases halving with
  | true =>
    rw [if_pos rfl, if_pos (hhalving rfl)]
    simp
  | false =>
    cases halving' with
    | true => by_cases hn : nesting = 1 <;> simp [hn, rank] <;> omega
    | false =>
      by_cases hn : nesting = 1
      · have hone : nesting' = 1 := by omega
        simp [hn, hone]
      · by_cases hone : nesting' = 1 <;> simp [hn, hone, rank]

end Rules

end Order

/-! ### Loops that nothing bounds -/

namespace Code.Statement

/-- Whether a statement is a loop through something else than a range. -/
def traverses (s : Statement) : Bool :=
  (s matches .forLoop ..) && !s.counts

/-- Whether a statement is a loop with a condition that does not halve what it compares. -/
def waits (s : Statement) : Bool :=
  (s matches .whileLoop ..) && !s.halves

theorem isLoop_of_halves {s : Statement} (h : s.halves = true) : s.isLoop = true := by
  cases s with
  | whileLoop => rfl
  | _ => exact nomatch h

end Code.Statement

namespace Order

theorem any_halves (ss : List Statement) :
    (ss.filter Statement.isLoop).any Statement.halves = ss.any Statement.halves := by
  rw [List.any_filter]
  refine congrArg (List.any ss) (funext fun s => ?_)
  cases hs : s.halves with
  | false => exact Bool.and_false _
  | true => rw [Statement.isLoop_of_halves hs, Bool.and_self]

/-- Whether nothing bounds some loop of a program: it goes through something else than a range, or it
waits and no loop of the program depends on a collection. -/
def hasUnboundedLoop (m : Module) : Bool :=
  m.statements.any Statement.traverses ||
    (Features.collectionLoopOf m == 0 && m.statements.any Statement.waits)

theorem any_isUnbounded (m : Module) {f : Features}
    (hf : f.collectionLoop = Features.collectionLoopOf m) :
    (m.statements.filter Statement.isLoop).any (isUnbounded f) = hasUnboundedLoop m := by
  have hloop : ∀ s : Statement, (s.isLoop && isUnbounded f s) =
      (s.traverses || (Features.collectionLoopOf m == 0 && s.waits)) := by
    intro s
    cases s <;> simp [Statement.isLoop, isUnbounded, Statement.traverses, Statement.waits, hf]
  rw [List.any_filter, hasUnboundedLoop, Bool.eq_iff_iff]
  simp only [hloop, Bool.or_eq_true, Bool.and_eq_true, List.any_eq_true, and_or_left, exists_or,
    and_left_comm, exists_and_left]

theorem hasUnboundedLoop_eq_false_iff (m : Module) : hasUnboundedLoop m = false ↔
    m.statements.any Statement.traverses = false ∧
      (Features.collectionLoopOf m = 0 → m.statements.any Statement.waits = false) := by
  rw [hasUnboundedLoop, Bool.or_eq_false_iff, Bool.and_eq_false_iff, beq_eq_false_iff_ne]
  exact and_congr_right fun _ => Decidable.imp_iff_not_or.symm

theorem classify_ofModule (m : Module) (repeated : Nat) :
    classify m (.ofModule m 0 repeated) = ofRules (ofRecursion m) (hasUnboundedLoop m)
      (m.statements.any Statement.halves) (Features.nestingOf m) := by
  rw [classify_eq m (by exact nofun), any_halves, any_isUnbounded m rfl]
  rfl

end Order

/-! ### What grows with a program -/

namespace Features

theorem depths_append (body body' : List Statement) :
    depths (body ++ body') = max (depths body) (depths body') := by
  induction body with
  | nil => simp [depths]
  | cons s body ih => rw [List.cons_append, depths, depths, ih, Nat.max_assoc]

theorem nestingOf_le (body added : List Statement) :
    nestingOf ⟨body⟩ ≤ nestingOf ⟨body ++ added⟩ := by
  have hdepths : depths body ≤ depths (body ++ added) := by
    rw [depths_append]
    exact Nat.le_max_left _ _
  exact Nat.le_min.mpr ⟨Nat.le_trans (Nat.min_le_left _ _) hdepths, Nat.min_le_right _ _⟩

theorem collectionLoopOf_le_one (m : Module) : collectionLoopOf m ≤ 1 :=
  Bool.toNat_le _

theorem any_append (p : Statement → Bool) (body added : List Statement)
    (h : (Code.Module.mk body).statements.any p = true) :
    (Code.Module.mk (body ++ added)).statements.any p = true := by
  rw [Code.Module.statements_append, List.any_append, h, Bool.true_or]

end Features

namespace Order

theorem ofRecursion_le (body added : List Statement) :
    (ofRecursion ⟨body⟩).rank ≤ (ofRecursion ⟨body ++ added⟩).rank := by
  obtain ⟨fs, hfs⟩ := Code.Module.functions_prefix body added
  unfold ofRecursion
  rw [← hfs, List.filter_append]
  dsimp only
  generalize (Code.Module.mk body).functions.filter (fun f => !f.selfCalls.isEmpty) = recursive
  generalize fs.filter (fun f => !f.selfCalls.isEmpty) = recursive'
  cases recursive with
  | nil => exact Nat.zero_le _
  | cons f rest =>
    rw [List.all_append]
    cases (f :: rest).all Function.converges <;> cases recursive'.all Function.converges <;>
      simp [rank]

/-! ### Adding statements -/

/-- A program loses its unbounded loops: they wait, and in the longer program some loop depends on a
collection. -/
structure Ties (m m' : Module) : Prop where
  waits : m.statements.any Statement.waits = true
  untied : Features.collectionLoopOf m = 0
  tied : Features.collectionLoopOf m' = 1
  counts : m'.statements.any Statement.traverses = false
  converges : ofRecursion m' ≠ exponential

/-- A program with single loops only gets its first loop that halves. -/
structure Quickens (m m' : Module) : Prop where
  nesting : Features.nestingOf m = 1
  nesting' : Features.nestingOf m' = 1
  slow : m.statements.any Statement.halves = false
  quick : m'.statements.any Statement.halves = true
  plain : ofRecursion m' = constant
  counts : m'.statements.any Statement.traverses = false
  bounded : Features.collectionLoopOf m' = 0 → m'.statements.any Statement.waits = false

/-- Statements behind a program make its order less in two ways only, if all runs come to their
normal end. -/
theorem classify_append_lt_iff (body added : List Statement) (repeated repeated' : Nat) :
    (classify ⟨body ++ added⟩ (.ofModule ⟨body ++ added⟩ 0 repeated')).rank <
        (classify ⟨body⟩ (.ofModule ⟨body⟩ 0 repeated)).rank ↔
      Ties ⟨body⟩ ⟨body ++ added⟩ ∨ Quickens ⟨body⟩ ⟨body ++ added⟩ := by
  have hcollection := Features.collectionLoopOf_le_one ⟨body ++ added⟩
  have hwaits := Features.any_append Statement.waits body added
  have htraverses := Features.any_append Statement.traverses body added
  have hhalves := Features.any_append Statement.halves body added
  rw [classify_ofModule, classify_ofModule, ofRules_lt_iff (ofRecursion_le body added)
    (ofRecursion_cases _) hhalves (Features.nestingOf_le body added),
    hasUnboundedLoop_eq_false_iff]
  generalize (Code.Module.mk body) = m at *
  generalize Code.Module.mk (body ++ added) = m' at *
  constructor
  · rintro ⟨hne, ⟨hcounts, hbounded⟩, hunbounded | ⟨hplain, hn, hn', hslow, hquick⟩⟩
    · left
      have hm : m.statements.any Statement.traverses = false :=
        Bool.eq_false_iff.mpr fun ht => nomatch hcounts.symm.trans (htraverses ht)
      rw [hasUnboundedLoop, hm, Bool.false_or, Bool.and_eq_true, beq_iff_eq] at hunbounded
      obtain ⟨huntied, hwaiting⟩ := hunbounded
      -- the loop waits in the longer program too, so there something bounds it
      have htied : Features.collectionLoopOf m' ≠ 0 :=
        fun hc => nomatch (hbounded hc).symm.trans (hwaits hwaiting)
      exact ⟨hwaiting, huntied, by omega, hcounts, hne⟩
    · exact .inr ⟨hn, hn', hslow, hquick, hplain, hcounts, hbounded⟩
  · rintro (h | h)
    · have hunbounded : hasUnboundedLoop m = true := by
        rw [hasUnboundedLoop, h.waits, h.untied]
        exact Bool.or_true _
      refine ⟨h.converges, ⟨h.counts, fun hc => ?_⟩, .inl hunbounded⟩
      exact absurd (h.tied.symm.trans hc) (by decide)
    · exact ⟨by rw [h.plain]; exact nofun, ⟨h.counts, h.bounded⟩,
        .inr ⟨h.plain, h.nesting, h.nesting', h.slow, h.quick⟩⟩

/-- A loop that halves, behind a loop that counts, makes a linear program logarithmic. -/
theorem classify_append_halving :
    let body : List Statement :=
      [.forLoop "i" (.call (.name "range") [.integer "10"]) [.pass]]
    let added : List Statement :=
      [.whileLoop (.compare (.name "i") [(.relation .gt, .integer "1")])
        [.assign (.name "i") (.binary (.name "i") .divide (.integer "2"))]]
    classify ⟨body⟩ (.ofModule ⟨body⟩ 0 0) = linear ∧
      classify ⟨body ++ added⟩ (.ofModule ⟨body ++ added⟩ 0 0) = logarithmic := by
  decide +kernel

end Order

end Growth
