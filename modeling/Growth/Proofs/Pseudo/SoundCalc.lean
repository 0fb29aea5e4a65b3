import Growth.Proofs.Pseudo.Result
import Growth.Pseudo.ReadCondition

/-! Calculations and conditions are read from their own words, and are grouped as the grammar's
levels say. -/

namespace Growth.Pseudo

open Reading

/-- `c` has the words `ws`, is grouped, and is no looser than `n`. -/
structure Calc.Made (n : Nat) (c : Calc) (ws : List Word) : Prop where
  words : ws = c.words
  grouped : c.Grouped
  level : n ≤ c.level

theorem Calc.Made.mono {m n : Nat} {c : Calc} {ws : List Word} (h : c.Made n ws) (hmn : m ≤ n) :
    c.Made m ws :=
  ⟨h.words, h.grouped, Nat.le_trans hmn h.level⟩

/-- An operator that groups to the left joins two calculations. -/
theorem Calc.Made.binary {left right : Calc} {op : Operator} {n : Nat} {ws ws' : List Word}
    {t : Token} (ht : t.kind = .operator op) (hn : op.level = n) (hp : op ≠ .power)
    (hl : left.Made n ws) (hr : right.Made (n + 1) ws') :
    (Calc.binary left op right).Made n (ws ++ t.word :: ws') := by
  refine ⟨?_, ?_, Nat.le_of_eq hn.symm⟩
  · rw [Calc.words, Token.word_of_kind ht nofun nofun, ← hl.words, ← hr.words]
  · rw [Calc.Grouped, if_neg hp]
    exact ⟨hl.grouped, hr.grouped, hn ▸ hl.level, hn ▸ hr.level⟩

theorem Calc.Made.power {base exponent : Calc} {ws ws' : List Word} {t : Token}
    (ht : t.kind = .operator .power) (hb : base.Made 3 ws) (he : exponent.Made 2 ws') :
    (Calc.binary base .power exponent).Made 2 (ws ++ t.word :: ws') := by
  refine ⟨?_, ?_, Nat.le_refl _⟩
  · rw [Calc.words, Token.word_of_kind ht nofun nofun, ← hb.words, ← he.words]
  · rw [Calc.Grouped, if_pos rfl]
    exact ⟨hb.grouped, he.grouped, hb.level, he.level⟩

/-- The calculations `cs` with commas between them, and a closing bracket, have the words `ws`. -/
structure Calc.MadeList (close : Kind) (cs : List Calc) (ws : List Word) : Prop where
  words : ws = Calc.listed cs ++ [close.word]
  grouped : Calc.AllGrouped cs

/-- The kinds of brackets that close, whose spelling does not count. -/
def Kind.Closes (k : Kind) : Prop := k = .closeParen ∨ k = .closeBracket ∨ k = .closeBrace

theorem Token.word_of_closes {t : Token} {k : Kind} (h : t.kind = k) (hk : k.Closes) :
    t.word = k.word := by
  rcases hk with rfl | rfl | rfl <;> exact Token.word_of_kind h nofun nofun

mutual

theorem readCalc_spells (ts : List Token) : (readCalc ts).Spells (Calc.Made 0) := by
  rw [readCalc]
  refine (readProduct_spells ts).bind fun left ws rest _ hl => ?_
  exact readSumTail_spells left rest ws (hl.mono (Nat.zero_le 1))
termination_by 8 * ts.length + 5
decreasing_by all_goals grind [→ List.IsSuffix.length_le]

theorem readSumTail_spells (left : Calc) (ts : List Token) (ws : List Word)
    (hl : left.Made 0 ws) :
    (readSumTail left ts).Spells fun c ws' => c.Made 0 (ws ++ ws') := by
  rw [readSumTail.eq_def]
  split
  · rename_i op lexeme position rest
    split
    · rename_i hop
      refine Spells.past ?_
      refine (readProduct_spells rest).bind fun right ws' rest' _ hr => ?_
      have := readSumTail_spells (.binary left op right) rest' _
        (hl.binary (t := ⟨.operator op, lexeme, position⟩) rfl (Operator.level_of_isAdditive hop)
          (Operator.ne_power_of_isAdditive hop) hr)
      simpa using this
    · exact Spells.done (by simpa using hl)
  · exact Spells.done (by simpa using hl)
termination_by 8 * ts.length + 4
decreasing_by all_goals grind [→ List.IsSuffix.length_le]

theorem readProduct_spells (ts : List Token) : (readProduct ts).Spells (Calc.Made 1) := by
  rw [readProduct]
  refine (readPower_spells ts).bind fun left ws rest _ hl => ?_
  exact readProductTail_spells left rest ws (hl.mono (by decide))
termination_by 8 * ts.length + 3
decreasing_by all_goals grind [→ List.IsSuffix.length_le]

theorem readProductTail_spells (left : Calc) (ts : List Token) (ws : List Word)
    (hl : left.Made 1 ws) :
    (readProductTail left ts).Spells fun c ws' => c.Made 1 (ws ++ ws') := by
  rw [readProductTail.eq_def]
  split
  · rename_i op lexeme position rest
    split
    · rename_i hop
      refine Spells.past ?_
      refine (readPower_spells rest).bind fun right ws' rest' _ hr => ?_
      have := readProductTail_spells (.binary left op right) rest' _
        (hl.binary (t := ⟨.operator op, lexeme, position⟩) rfl
          (Operator.level_of_isMultiplicative hop) (Operator.ne_power_of_isMultiplicative hop) hr)
      simpa using this
    · exact Spells.done (by simpa using hl)
  · exact Spells.done (by simpa using hl)
termination_by 8 * ts.length + 2
decreasing_by all_goals grind [→ List.IsSuffix.length_le]

theorem readPower_spells (ts : List Token) : (readPower ts).Spells (Calc.Made 2) := by
  rw [readPower]
  refine (readOperand_spells ts).bind fun base ws rest _ hb => ?_
  split
  · rename_i rest' _
    refine Spells.past ?_
    exact (readPower_spells rest').map fun exponent ws' he => hb.power rfl he
  · exact Spells.done (by simpa using hb.mono (by decide))
termination_by 8 * ts.length + 1
decreasing_by all_goals grind [→ List.IsSuffix.length_le]

theorem readOperand_spells (ts : List Token) : (readOperand ts).Spells (Calc.Made 3) := by
  rw [readOperand.eq_def]
  split
  · refine Spells.past ?_
    refine (readCalc_spells _).bind fun inner ws rest' _ hi => ?_
    refine (expect_spells .closeParen rest').map fun t ws' ht => ⟨?_, hi.grouped, Nat.le_refl _⟩
    rw [ht.2, Token.word_of_kind ht.1 nofun nofun, hi.words]
    rfl
  · rintro v rest ⟨⟩
    exact ⟨[_], rfl, rfl, trivial, Nat.le_refl _⟩
  · refine Spells.past <| Spells.past ?_
    refine (readCalcs_spells .closeParen (.inl rfl) _).map fun cs ws hcs => ?_
    exact ⟨by rw [hcs.words]; rfl, hcs.grouped, Nat.le_refl _⟩
  · refine Spells.past <| Spells.past ?_
    refine (readCalc_spells _).bind fun index ws rest' _ hi => ?_
    refine (expect_spells .closeBracket rest').map fun t ws' ht => ⟨?_, hi.grouped, Nat.le_refl _⟩
    rw [ht.2, Token.word_of_kind ht.1 nofun nofun, hi.words]
    rfl
  · rintro v rest ⟨⟩
    exact ⟨[_], rfl, rfl, trivial, Nat.le_refl _⟩
  · refine Spells.past ?_
    split
    · exact Spells.stuck
    · rename_i rest hne
      intro v rest' hv
      obtain ⟨ws, hws, hp⟩ := (readCalcs_spells .closeBrace (.inr (.inr rfl)) rest).map
        (f := Calc.set) (Q := fun c ws => ∃ cs, c = .set cs ∧ Calc.MadeList .closeBrace cs ws)
        (fun cs ws hcs => ⟨cs, rfl, hcs⟩) v rest' hv
      obtain ⟨cs, rfl, hcs⟩ := hp
      refine ⟨ws, hws, by rw [hcs.words]; rfl, ⟨?_, hcs.grouped⟩, Nat.le_refl _⟩
      rintro rfl
      -- without items the closing brace would come first
      rw [hcs.words] at hws
      obtain ⟨t, ts, rfl, ht, -⟩ := List.map_eq_cons_iff.mp hws
      exact hne (by simpa using congrArg Prod.fst ht)
  · refine Spells.past ?_
    refine (readCalcs_spells .closeBracket (.inr (.inl rfl)) _).map fun cs ws hcs => ?_
    exact ⟨by rw [hcs.words]; rfl, hcs.grouped, Nat.le_refl _⟩
  · exact Spells.stuck
termination_by 8 * ts.length
decreasing_by all_goals grind [→ List.IsSuffix.length_le]

theorem readCalcs_spells (close : Kind) (hc : close.Closes) (ts : List Token) :
    (readCalcs close ts).Spells (Calc.MadeList close) := by
  rw [readCalcs]
  split
  · rename_i t rest h he
    rintro v rest ⟨⟩
    obtain ⟨ws, hws, hk, rfl⟩ := expect_spells close ts t rest (by rw [he]; rfl)
    exact ⟨_, hws, by rw [Token.word_of_closes hk hc]; rfl, trivial⟩
  · exact (readCalcsTail_spells close hc ts).mono fun _ _ h => h.2
termination_by 8 * ts.length + 7
decreasing_by all_goals grind [→ List.IsSuffix.length_le]

theorem readCalcsTail_spells (close : Kind) (hc : close.Closes) (ts : List Token) :
    (readCalcsTail close ts).Spells fun cs ws => cs ≠ [] ∧ Calc.MadeList close cs ws := by
  rw [readCalcsTail]
  refine (readCalc_spells ts).bind fun first ws rest _ hf => ?_
  split
  · refine Spells.past ?_
    refine (readCalcsTail_spells close hc _).map fun cs ws' hcs =>
      ⟨nofun, ?_, hf.grouped, hcs.2.grouped⟩
    rw [hcs.2.words, hf.words, Calc.listed, if_neg (by simpa using hcs.1)]
    simp [Token.word, Kind.word]
  · refine (expect_spells close rest).map fun t ws' ht => ⟨nofun, ?_, hf.grouped, trivial⟩
    rw [ht.2, Token.word_of_closes ht.1 hc, hf.words]
    simp [Calc.listed]
termination_by 8 * ts.length + 6
decreasing_by all_goals grind [→ List.IsSuffix.length_le]

end

/-- `c` has the words `ws` and is grouped. -/
structure Condition.Made (c : Condition) (ws : List Word) : Prop where
  words : ws = c.words
  grouped : c.Grouped

theorem comparator?_words {ts : List Token} {op : Comparator} {rest : List Token}
    {h : rest <:+ ts} (hc : comparator? ts = some (op, ⟨rest, h⟩)) :
    ts.map Token.word = op.words ++ rest.map Token.word := by
  unfold comparator? at hc
  split at hc <;> cases hc <;> rfl

theorem readComparison_spells (ts : List Token) :
    (readComparison ts).Spells fun c ws => c.Made ws ∧ c.isUnit = true := by
  refine (readCalc_spells ts).bind fun left ws rest _ hl => ?_
  split
  · rename_i op rest' h hop
    refine Spells.widen (comparator?_words hop) ?_
    refine (readCalc_spells rest').map fun right ws' hr => ⟨⟨?_, hl.grouped, hr.grouped⟩, rfl⟩
    rw [Condition.words, hl.words, hr.words, List.append_assoc]
  · exact Spells.done ⟨⟨by simp [Condition.words, hl.words], hl.grouped⟩, rfl⟩

theorem Condition.Made.joined {left right : Condition} {k : Connective} {ws ws' : List Word}
    {t : Token} (ht : t.kind = k.kind) (hl : left.Made ws)
    (hr : right.Made ws' ∧ right.isUnit = true) :
    (Condition.joined left k right).Made (ws ++ t.word :: ws') := by
  refine ⟨?_, hl.grouped, hr.1.grouped, hr.2⟩
  rw [Condition.words, hl.words, hr.1.words,
    Token.word_of_kind ht (by cases k <;> nofun) (by cases k <;> nofun)]

mutual

theorem readCondition_spells (ts : List Token) : (readCondition ts).Spells Condition.Made := by
  rw [readCondition]
  refine (readUnit_spells ts).bind fun left ws rest _ hl => ?_
  exact readConditionTail_spells left rest ws hl.1
termination_by 3 * ts.length + 2
decreasing_by all_goals grind [→ List.IsSuffix.length_le]

theorem readConditionTail_spells (left : Condition) (ts : List Token) (ws : List Word)
    (hl : left.Made ws) :
    (readConditionTail left ts).Spells fun c ws' => c.Made (ws ++ ws') := by
  rw [readConditionTail.eq_def]
  split
  · rename_i lexeme position rest
    refine Spells.past ?_
    refine (readUnit_spells rest).bind fun right ws' rest' _ hr => ?_
    simpa using readConditionTail_spells (.joined left .and right) rest' _
      (hl.joined (t := ⟨.andKw, lexeme, position⟩) rfl hr)
  · rename_i lexeme position rest
    refine Spells.past ?_
    refine (readUnit_spells rest).bind fun right ws' rest' _ hr => ?_
    simpa using readConditionTail_spells (.joined left .or right) rest' _
      (hl.joined (t := ⟨.orKw, lexeme, position⟩) rfl hr)
  · exact Spells.done (by simpa using hl)
termination_by 3 * ts.length + 1
decreasing_by all_goals grind [→ List.IsSuffix.length_le]

theorem readUnit_spells (ts : List Token) :
    (readUnit ts).Spells fun c ws => c.Made ws ∧ c.isUnit = true := by
  rw [readUnit.eq_def]
  split
  · refine Spells.past ?_
    refine (readUnit_spells _).map fun inner ws hi => ⟨⟨?_, hi.1.grouped, hi.2⟩, rfl⟩
    rw [hi.1.words]
    rfl
  · rename_i lexeme position rest
    have group : (Reading.past ⟨.openParen, lexeme, position⟩
        ((readCondition rest).bind fun inner rest _ =>
          (expect .closeParen rest).map fun _ => Condition.group inner)).Spells
        fun c ws => c.Made ws ∧ c.isUnit = true := by
      refine Spells.past ?_
      refine (readCondition_spells rest).bind fun inner ws rest' _ hi => ?_
      refine (expect_spells .closeParen rest').map fun t ws' ht => ⟨⟨?_, hi.grouped⟩, rfl⟩
      rw [ht.2, Token.word_of_kind ht.1 nofun nofun, hi.words]
      rfl
    dsimp only
    split
    · rename_i inner rest' h hg
      split
      · exact readComparison_spells _
      · rintro v rest'' ⟨⟩
        exact group inner rest' (by rw [hg]; rfl)
    · exact readComparison_spells _
  · exact readComparison_spells _
termination_by 3 * ts.length
decreasing_by all_goals grind [→ List.IsSuffix.length_le]

end

end Growth.Pseudo
