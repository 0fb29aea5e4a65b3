import Growth.Proofs.Pseudo.CompleteStatement

/-! Trees that are not grouped as they would be read, and the grouped trees with the same words. A
proper tree is one that a grammar without levels derives: no set or block of it is empty, and a
negation or what is joined to a condition is one condition only. -/

namespace Growth.Pseudo

/-! ### Proper trees -/

mutual

/-- No set of the calculation is empty. -/
def Calc.Proper : Calc → Prop
  | number _ | name _ => True
  | call _ arguments => Calc.AllProper arguments
  | item _ index => index.Proper
  | group inner => inner.Proper
  | set items => items ≠ [] ∧ Calc.AllProper items
  | list items => Calc.AllProper items
  | binary left _ right => left.Proper ∧ right.Proper

/-- All of the calculations are proper. -/
def Calc.AllProper : List Calc → Prop
  | [] => True
  | c :: cs => c.Proper ∧ Calc.AllProper cs

end

/-- The calculations of a condition are proper, and units stand where units must. -/
def Condition.Proper : Condition → Prop
  | value c => c.Proper
  | compare left _ right => left.Proper ∧ right.Proper
  | negation inner => inner.Proper ∧ inner.isUnit
  | group inner => inner.Proper
  | joined left _ right => left.Proper ∧ right.Proper ∧ right.isUnit

/-- The calculations of a source are proper. -/
def Source.Proper : Source → Prop
  | values c => c.Proper
  | interval first last => first.Proper ∧ last.Proper
  | steps first last step => first.Proper ∧ last.Proper ∧ step.Proper

mutual

/-- What a statement consists of is proper, and none of its blocks is empty. -/
def Statement.Proper : Statement → Prop
  | assign _ value => value.Proper
  | branch condition body => condition.Proper ∧ body ≠ [] ∧ Statement.AllProper body
  | choice condition body other =>
    condition.Proper ∧ (body ≠ [] ∧ Statement.AllProper body) ∧
      other ≠ [] ∧ Statement.AllProper other
  | each _ source body => source.Proper ∧ body ≠ [] ∧ Statement.AllProper body
  | repetition body condition => (body ≠ [] ∧ Statement.AllProper body) ∧ condition.Proper
  | procedure _ _ body => body ≠ [] ∧ Statement.AllProper body
  | result none => True
  | result (some value) => value.Proper

/-- All of the statements are proper. -/
def Statement.AllProper : List Statement → Prop
  | [] => True
  | s :: ss => s.Proper ∧ Statement.AllProper ss

end

mutual

theorem Calc.Grouped.proper : (c : Calc) → c.Grouped → c.Proper
  | .number _, _ | .name _, _ => trivial
  | .call _ arguments, h => Calc.AllGrouped.allProper arguments h
  | .item _ index, h => Calc.Grouped.proper index h
  | .group inner, h => Calc.Grouped.proper inner h
  | .set items, h => ⟨h.1, Calc.AllGrouped.allProper items h.2⟩
  | .list items, h => Calc.AllGrouped.allProper items h
  | .binary left _ right, h => ⟨Calc.Grouped.proper left h.1, Calc.Grouped.proper right h.2.1⟩

theorem Calc.AllGrouped.allProper : (cs : List Calc) → Calc.AllGrouped cs → Calc.AllProper cs
  | [], _ => trivial
  | c :: cs, h => ⟨Calc.Grouped.proper c h.1, Calc.AllGrouped.allProper cs h.2⟩

end

theorem Condition.Grouped.proper : (c : Condition) → c.Grouped → c.Proper
  | .value c, h => Calc.Grouped.proper c h
  | .compare left _ right, h => ⟨Calc.Grouped.proper left h.1, Calc.Grouped.proper right h.2⟩
  | .negation inner, h => ⟨Condition.Grouped.proper inner h.1, h.2⟩
  | .group inner, h => Condition.Grouped.proper inner h
  | .joined left _ right, h =>
    ⟨Condition.Grouped.proper left h.1, Condition.Grouped.proper right h.2.1, h.2.2⟩

theorem Source.Grouped.proper {s : Source} (h : s.Grouped) : s.Proper := by
  cases s with
  | values c => exact Calc.Grouped.proper c h
  | interval first last => exact ⟨Calc.Grouped.proper first h.1, Calc.Grouped.proper last h.2⟩
  | steps first last step =>
    exact ⟨Calc.Grouped.proper first h.1, Calc.Grouped.proper last h.2.1,
      Calc.Grouped.proper step h.2.2⟩

mutual

theorem Statement.Grouped.proper : (s : Statement) → s.Grouped → s.Full → s.Proper
  | .assign _ value, h, _ => Calc.Grouped.proper value h
  | .branch condition body, h, hf =>
    ⟨Condition.Grouped.proper condition h.1, hf.1, Statement.AllGrouped.allProper body h.2 hf.2⟩
  | .choice condition body other, h, hf =>
    ⟨Condition.Grouped.proper condition h.1,
      ⟨hf.1.1, Statement.AllGrouped.allProper body h.2.1 hf.1.2⟩,
      hf.2.1, Statement.AllGrouped.allProper other h.2.2 hf.2.2⟩
  | .each _ _ body, h, hf =>
    ⟨h.1.proper, hf.1, Statement.AllGrouped.allProper body h.2 hf.2⟩
  | .repetition body condition, h, hf =>
    ⟨⟨hf.1, Statement.AllGrouped.allProper body h.1 hf.2⟩,
      Condition.Grouped.proper condition h.2⟩
  | .procedure _ _ body, h, hf => ⟨hf.1, Statement.AllGrouped.allProper body h hf.2⟩
  | .result none, _, _ => trivial
  | .result (some value), h, _ => Calc.Grouped.proper value h

theorem Statement.AllGrouped.allProper : (ss : List Statement) → Statement.AllGrouped ss →
    Statement.AllFull ss → Statement.AllProper ss
  | [], _, _ => trivial
  | s :: ss, h, hf =>
    ⟨Statement.Grouped.proper s h.1 hf.1, Statement.AllGrouped.allProper ss h.2 hf.2⟩

end

/-! ### Joining grouped calculations -/

/-- The operator `op` and an operand after `c`. A tighter operator takes the last part of `c` only,
and so does a power. -/
def Calc.extend : Calc → Operator → Calc → Calc
  | binary left op' right, op, operand =>
    if op'.level < op.level ∨ op = .power then .binary left op' (right.extend op operand)
    else .binary (.binary left op' right) op operand
  | c, op, operand => .binary c op operand

@[simp] theorem Calc.extend_words : (c : Calc) → (op : Operator) → (operand : Calc) →
    (c.extend op operand).words = c.words ++ Kind.word (.operator op) :: operand.words
  | .binary left op' right, op, operand => by
    rw [Calc.extend]
    split
    · simp [Calc.words, Calc.extend_words right op operand]
    · rfl
  | .number _, _, _ | .name _, _, _ | .call _ _, _, _ | .item _ _, _, _ | .group _, _, _
  | .set _, _, _ | .list _, _, _ => rfl

theorem Calc.extend_level : (c : Calc) → (op : Operator) → (operand : Calc) →
    (c.extend op operand).level = min c.level op.level
  | .binary left op' right, op, operand => by
    rw [Calc.extend]
    split
    · rename_i hop
      have := op'.level_le
      simp only [Calc.level]
      rcases hop with hlt | rfl
      · omega
      · rw [show Operator.power.level = 2 from rfl]
        omega
    · rename_i hop
      simp only [Calc.level]
      omega
  | .number _, op, _ | .name _, op, _ | .call _ _, op, _ | .item _ _, op, _
  | .group _, op, _ | .set _, op, _ | .list _, op, _ => by
    have := op.level_le
    simp only [Calc.extend, Calc.level]
    omega

theorem Calc.Grouped.binary_operand {c operand : Calc} {op : Operator} (hc : c.Grouped)
    (ho : operand.Grouped) (hlevel : operand.level = 3) (hle : op.level ≤ c.level)
    (hp : op = .power → c.level = 3) : (Calc.binary c op operand).Grouped := by
  refine ⟨hc, ho, ?_⟩
  split
  · rename_i h
    rw [hp h, hlevel]
    decide
  · rw [hlevel]
    exact ⟨hle, Nat.lt_of_le_of_lt op.level_le (by decide)⟩

theorem Calc.Grouped.extend : (c : Calc) → (op : Operator) → (operand : Calc) → c.Grouped →
    operand.Grouped → operand.level = 3 → (c.extend op operand).Grouped
  | .binary left op' right, op, operand, h, ho, hlevel => by
    rw [Calc.extend]
    split
    · rename_i hop
      have hright := Calc.Grouped.extend right op operand h.2.1 ho hlevel
      have hle := op.level_le
      have hparts := h.2.2
      refine ⟨h.1, hright, ?_⟩
      rw [right.extend_level op operand]
      split
      · rename_i hp
        rw [if_pos hp] at hparts
        rcases hop with hlt | rfl
        · rw [hp, show Operator.power.level = 2 from rfl] at hlt
          omega
        · rw [show Operator.power.level = 2 from rfl]
          omega
      · rename_i hp
        rw [if_neg hp] at hparts
        have hne : op'.level ≠ 2 := fun he => hp (Operator.level_eq_two_iff.mp he)
        have hle' := op'.level_le
        rcases hop with hlt | rfl
        · omega
        · rw [show Operator.power.level = 2 from rfl]
          omega
    · rename_i hop
      refine Calc.Grouped.binary_operand h ho hlevel (by simp only [Calc.level]; omega) ?_
      exact fun hp => absurd (.inr hp) hop
  | .number _, op, _, h, ho, hl | .name _, op, _, h, ho, hl | .call _ _, op, _, h, ho, hl
  | .item _ _, op, _, h, ho, hl | .group _, op, _, h, ho, hl | .set _, op, _, h, ho, hl
  | .list _, op, _, h, ho, hl =>
    .binary_operand h ho hl (Nat.le_succ_of_le op.level_le) fun _ => rfl

/-- The operator `op` and the operands and operators of a calculation after `c`. -/
def Calc.join (c : Calc) (op : Operator) : Calc → Calc
  | binary left op' right => (c.join op left).join op' right
  | operand => c.extend op operand

@[simp] theorem Calc.join_words : (c : Calc) → (op : Operator) → (d : Calc) →
    (c.join op d).words = c.words ++ Kind.word (.operator op) :: d.words
  | c, op, .binary left op' right => by
    rw [Calc.join, Calc.join_words _ op' right, Calc.join_words c op left]
    simp [Calc.words]
  | c, op, .number _ | c, op, .name _ | c, op, .call _ _ | c, op, .item _ _ | c, op, .group _
  | c, op, .set _ | c, op, .list _ => Calc.extend_words c op _

theorem Calc.Grouped.join : (c : Calc) → (op : Operator) → (d : Calc) → c.Grouped → d.Grouped →
    (c.join op d).Grouped
  | c, op, .binary left op' right, hc, hd =>
    Calc.Grouped.join _ op' right (Calc.Grouped.join c op left hc hd.1) hd.2.1
  | c, op, .number _, hc, hd | c, op, .name _, hc, hd | c, op, .call _ _, hc, hd
  | c, op, .item _ _, hc, hd | c, op, .group _, hc, hd | c, op, .set _, hc, hd
  | c, op, .list _, hc, hd => Calc.Grouped.extend c op _ hc hd rfl

/-! ### Grouping as the readers do -/

mutual

/-- The grouped calculation with the same words. -/
def Calc.regrouped : Calc → Calc
  | number l => .number l
  | name n => .name n
  | call n arguments => .call n (Calc.allRegrouped arguments)
  | item n index => .item n index.regrouped
  | group inner => .group inner.regrouped
  | set items => .set (Calc.allRegrouped items)
  | list items => .list (Calc.allRegrouped items)
  | binary left op right => left.regrouped.join op right.regrouped

/-- The grouped calculations with the same words. -/
def Calc.allRegrouped : List Calc → List Calc
  | [] => []
  | c :: cs => c.regrouped :: Calc.allRegrouped cs

end

/-- The settled condition with the same words. -/
def Condition.regrouped : Condition → Condition
  | value c => c.regrouped.asCondition
  | compare left op right => .compare left.regrouped op right.regrouped
  | negation inner => .negation inner.regrouped
  | group inner => .group inner.regrouped
  | joined left k right => .joined left.regrouped k right.regrouped

/-- The grouped source with the same words. -/
def Source.regrouped : Source → Source
  | values c => .values c.regrouped
  | interval first last => .interval first.regrouped last.regrouped
  | steps first last step => .steps first.regrouped last.regrouped step.regrouped

mutual

/-- The settled statement with the same words. -/
def Statement.regrouped : Statement → Statement
  | assign target value => .assign target value.regrouped
  | branch condition body => .branch condition.regrouped (Statement.allRegrouped body)
  | choice condition body other =>
    .choice condition.regrouped (Statement.allRegrouped body) (Statement.allRegrouped other)
  | each counter source body => .each counter source.regrouped (Statement.allRegrouped body)
  | repetition body condition => .repetition (Statement.allRegrouped body) condition.regrouped
  | procedure name parameters body => .procedure name parameters (Statement.allRegrouped body)
  | result none => .result none
  | result (some value) => .result (some value.regrouped)

/-- The settled statements with the same words. -/
def Statement.allRegrouped : List Statement → List Statement
  | [] => []
  | s :: ss => s.regrouped :: Statement.allRegrouped ss

end

mutual

@[simp] theorem Calc.regrouped_words : (c : Calc) → c.regrouped.words = c.words
  | .number _ | .name _ => rfl
  | .call n arguments => by simp [Calc.regrouped, Calc.words, Calc.allRegrouped_listed arguments]
  | .item n index => by simp [Calc.regrouped, Calc.words, Calc.regrouped_words index]
  | .group inner => by simp [Calc.regrouped, Calc.words, Calc.regrouped_words inner]
  | .set items => by simp [Calc.regrouped, Calc.words, Calc.allRegrouped_listed items]
  | .list items => by simp [Calc.regrouped, Calc.words, Calc.allRegrouped_listed items]
  | .binary left op right => by
    rw [Calc.regrouped, Calc.join_words, Calc.regrouped_words left, Calc.regrouped_words right,
      Calc.words]

@[simp] theorem Calc.allRegrouped_listed :
    (cs : List Calc) → Calc.listed (Calc.allRegrouped cs) = Calc.listed cs
  | [] => rfl
  | [c] => by simp [Calc.allRegrouped, Calc.listed, Calc.regrouped_words c]
  | c :: c' :: cs => by
    have htail := Calc.allRegrouped_listed (c' :: cs)
    rw [Calc.allRegrouped, Calc.listed, htail, Calc.regrouped_words c]
    rfl

end

mutual

theorem Calc.Proper.regrouped : (c : Calc) → c.Proper → c.regrouped.Grouped
  | .number _, _ | .name _, _ => trivial
  | .call _ arguments, h => Calc.AllProper.allRegrouped arguments h
  | .item _ index, h => Calc.Proper.regrouped index h
  | .group inner, h => Calc.Proper.regrouped inner h
  | .set items, h => by
    refine ⟨?_, Calc.AllProper.allRegrouped items h.2⟩
    obtain ⟨c, cs, rfl⟩ := List.exists_cons_of_ne_nil h.1
    exact List.cons_ne_nil _ _
  | .list items, h => Calc.AllProper.allRegrouped items h
  | .binary left op right, h =>
    Calc.Grouped.join _ op _ (Calc.Proper.regrouped left h.1) (Calc.Proper.regrouped right h.2)

theorem Calc.AllProper.allRegrouped : (cs : List Calc) → Calc.AllProper cs →
    Calc.AllGrouped (Calc.allRegrouped cs)
  | [], _ => trivial
  | c :: cs, h => ⟨Calc.Proper.regrouped c h.1, Calc.AllProper.allRegrouped cs h.2⟩

end

@[simp] theorem Condition.regrouped_words : (c : Condition) → c.regrouped.words = c.words
  | .value c => by simp [Condition.regrouped, Condition.words]
  | .compare left op right => by simp [Condition.regrouped, Condition.words]
  | .negation inner => by
    simp [Condition.regrouped, Condition.words, Condition.regrouped_words inner]
  | .group inner => by
    simp [Condition.regrouped, Condition.words, Condition.regrouped_words inner]
  | .joined left k right => by
    simp [Condition.regrouped, Condition.words, Condition.regrouped_words left,
      Condition.regrouped_words right]

theorem Calc.asCondition_isUnit (c : Calc) : c.asCondition.isUnit = true := by
  cases c <;> rfl

@[simp] theorem Condition.regrouped_isUnit (c : Condition) : c.regrouped.isUnit = c.isUnit := by
  cases c with
  | value c => exact c.regrouped.asCondition_isUnit
  | _ => rfl

theorem Condition.Proper.regrouped : (c : Condition) → c.Proper → c.regrouped.Settled
  | .value c, h => (Calc.Proper.regrouped c h).asCondition_settled
  | .compare left _ right, h => ⟨Calc.Proper.regrouped left h.1, Calc.Proper.regrouped right h.2⟩
  | .negation inner, h =>
    ⟨Condition.Proper.regrouped inner h.1, by rw [inner.regrouped_isUnit]; exact h.2⟩
  | .group inner, h => Condition.Proper.regrouped inner h
  | .joined left _ right, h =>
    ⟨Condition.Proper.regrouped left h.1, Condition.Proper.regrouped right h.2.1,
      by rw [right.regrouped_isUnit]; exact h.2.2⟩

@[simp] theorem Source.regrouped_words (s : Source) : s.regrouped.words = s.words := by
  cases s <;> simp [Source.regrouped, Source.words]

theorem Source.Proper.regrouped {s : Source} (h : s.Proper) : s.regrouped.Grouped := by
  cases s with
  | values c => exact Calc.Proper.regrouped c h
  | interval first last => exact ⟨Calc.Proper.regrouped first h.1, Calc.Proper.regrouped last h.2⟩
  | steps first last step =>
    exact ⟨Calc.Proper.regrouped first h.1, Calc.Proper.regrouped last h.2.1,
      Calc.Proper.regrouped step h.2.2⟩

mutual

@[simp] theorem Statement.regrouped_words : (s : Statement) → s.regrouped.words = s.words
  | .assign target value => by simp [Statement.regrouped, Statement.words]
  | .branch condition body => by
    simp [Statement.regrouped, Statement.words, Statement.allRegrouped_words body]
  | .choice condition body other => by
    simp [Statement.regrouped, Statement.words, Statement.allRegrouped_words body,
      Statement.allRegrouped_words other]
  | .each counter source body => by
    simp [Statement.regrouped, Statement.words, Statement.allRegrouped_words body]
  | .repetition body condition => by
    simp [Statement.regrouped, Statement.words, Statement.allRegrouped_words body]
  | .procedure name parameters body => by
    simp [Statement.regrouped, Statement.words, Statement.allRegrouped_words body]
  | .result none => rfl
  | .result (some value) => by simp [Statement.regrouped, Statement.words]

@[simp] theorem Statement.allRegrouped_words :
    (ss : List Statement) → Statement.wordsOf (Statement.allRegrouped ss) = Statement.wordsOf ss
  | [] => rfl
  | s :: ss => by
    simp [Statement.allRegrouped, Statement.wordsOf, Statement.regrouped_words s,
      Statement.allRegrouped_words ss]

end

theorem Statement.allRegrouped_ne_nil {ss : List Statement} (h : ss ≠ []) :
    Statement.allRegrouped ss ≠ [] := by
  obtain ⟨s, ss, rfl⟩ := List.exists_cons_of_ne_nil h
  exact List.cons_ne_nil _ _

mutual

theorem Statement.Proper.regrouped : (s : Statement) → s.Proper →
    s.regrouped.Settled ∧ s.regrouped.Full
  | .assign _ value, h => ⟨Calc.Proper.regrouped value h, trivial⟩
  | .branch condition body, ⟨hc, hne, hb⟩ =>
    have hb' := Statement.AllProper.allRegrouped body hb
    ⟨⟨Condition.Proper.regrouped condition hc, hb'.1⟩, Statement.allRegrouped_ne_nil hne, hb'.2⟩
  | .choice condition body other, ⟨hc, ⟨hne, hb⟩, hne', ho⟩ =>
    have hb' := Statement.AllProper.allRegrouped body hb
    have ho' := Statement.AllProper.allRegrouped other ho
    ⟨⟨Condition.Proper.regrouped condition hc, hb'.1, ho'.1⟩,
      ⟨Statement.allRegrouped_ne_nil hne, hb'.2⟩, Statement.allRegrouped_ne_nil hne', ho'.2⟩
  | .each _ _ body, ⟨hs, hne, hb⟩ =>
    have hb' := Statement.AllProper.allRegrouped body hb
    ⟨⟨hs.regrouped, hb'.1⟩, Statement.allRegrouped_ne_nil hne, hb'.2⟩
  | .repetition body condition, ⟨⟨hne, hb⟩, hc⟩ =>
    have hb' := Statement.AllProper.allRegrouped body hb
    ⟨⟨hb'.1, Condition.Proper.regrouped condition hc⟩, Statement.allRegrouped_ne_nil hne, hb'.2⟩
  | .procedure _ _ body, ⟨hne, hb⟩ =>
    have hb' := Statement.AllProper.allRegrouped body hb
    ⟨hb'.1, Statement.allRegrouped_ne_nil hne, hb'.2⟩
  | .result none, _ => ⟨trivial, trivial⟩
  | .result (some value), h => ⟨Calc.Proper.regrouped value h, trivial⟩

theorem Statement.AllProper.allRegrouped : (ss : List Statement) → Statement.AllProper ss →
    Statement.AllSettled (Statement.allRegrouped ss) ∧
      Statement.AllFull (Statement.allRegrouped ss)
  | [], _ => ⟨trivial, trivial⟩
  | s :: ss, h =>
    have hs := Statement.Proper.regrouped s h.1
    have hss := Statement.AllProper.allRegrouped ss h.2
    ⟨⟨hs.1, hss.1⟩, hs.2, hss.2⟩

end

/-- The words of proper statements are a program. It is read as those statements, grouped. -/
theorem readProgram_of_proper {ss : List Statement} (h : Statement.AllProper ss) (hne : ss ≠ [])
    {ts : List Token} (hts : ts.map Token.word = Statement.wordsOf ss) :
    readProgram ts = (Statement.allRegrouped ss, []) := by
  have hss := Statement.AllProper.allRegrouped ss h
  exact readProgram_of_words hss.1 hss.2 (Statement.allRegrouped_ne_nil hne)
    (hts.trans (Statement.allRegrouped_words ss).symm)

end Growth.Pseudo
