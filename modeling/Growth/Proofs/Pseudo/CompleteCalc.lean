import Growth.Proofs.Pseudo.SoundCalc

/-! A grouped calculation is read back from its words, whatever follows them, so long as that does not
go on with the calculation. -/

namespace Growth.Pseudo

open Reading

/-! ### Tokens with given words -/

theorem Token.eq_of_word_eq {t : Token} {k : Kind} (h : t.word = k.word) :
    ∃ lexeme position, t = ⟨k, lexeme, position⟩ := by
  obtain ⟨kind, lexeme, position⟩ := t
  exact ⟨lexeme, position, by rw [show kind = k from congrArg Prod.fst h]⟩

theorem Token.eq_of_word_eq_name {t : Token} {n : String} (h : t.word = (.name, n)) :
    ∃ position, t = ⟨.name, n, position⟩ := by
  obtain ⟨kind, lexeme, position⟩ := t
  obtain rfl : kind = .name := congrArg Prod.fst h
  exact ⟨position, by rw [show lexeme = n from congrArg Prod.snd h]⟩

theorem Token.eq_of_word_eq_number {t : Token} {n : String} (h : t.word = (.number, n)) :
    ∃ position, t = ⟨.number, n, position⟩ := by
  obtain ⟨kind, lexeme, position⟩ := t
  obtain rfl : kind = .number := congrArg Prod.fst h
  exact ⟨position, by rw [show lexeme = n from congrArg Prod.snd h]⟩

/-- Tokens whose words begin with one that has no spelling. -/
theorem tokens_cons {ts : List Token} {k : Kind} {ws : List Word}
    (h : ts.map Token.word = k.word :: ws) :
    ∃ lexeme position ts', ts = ⟨k, lexeme, position⟩ :: ts' ∧ ts'.map Token.word = ws := by
  obtain ⟨t, ts', rfl, ht, hts⟩ := List.map_eq_cons_iff.mp h
  obtain ⟨lexeme, position, rfl⟩ := Token.eq_of_word_eq ht
  exact ⟨lexeme, position, ts', rfl, hts⟩

theorem tokens_cons_name {ts : List Token} {n : String} {ws : List Word}
    (h : ts.map Token.word = (.name, n) :: ws) :
    ∃ position ts', ts = ⟨.name, n, position⟩ :: ts' ∧ ts'.map Token.word = ws := by
  obtain ⟨t, ts', rfl, ht, hts⟩ := List.map_eq_cons_iff.mp h
  obtain ⟨position, rfl⟩ := Token.eq_of_word_eq_name ht
  exact ⟨position, ts', rfl, hts⟩

theorem tokens_cons_number {ts : List Token} {n : String} {ws : List Word}
    (h : ts.map Token.word = (.number, n) :: ws) :
    ∃ position ts', ts = ⟨.number, n, position⟩ :: ts' ∧ ts'.map Token.word = ws := by
  obtain ⟨t, ts', rfl, ht, hts⟩ := List.map_eq_cons_iff.mp h
  obtain ⟨position, rfl⟩ := Token.eq_of_word_eq_number ht
  exact ⟨position, ts', rfl, hts⟩

theorem tokens_singleton {ts : List Token} {k : Kind} (h : ts.map Token.word = [k.word]) :
    ∃ lexeme position, ts = [⟨k, lexeme, position⟩] := by
  obtain ⟨lexeme, position, ts', rfl, hts⟩ := tokens_cons h
  exact ⟨lexeme, position, by rw [List.map_eq_nil_iff.mp hts]⟩

/-! ### What may follow -/

/-- A kind of word that goes on with a calculation whose operators are below level `n`. -/
def Kind.extends (n : Nat) : Kind → Bool
  | operator op => n ≤ op.level
  | openParen | openBracket => true
  | _ => false

/-- The first of `r` does not go on with a calculation whose operators are below level `n`. -/
def Calm (n : Nat) (r : List Token) : Prop :=
  ∀ t ∈ r.head?, t.kind.extends n = false

theorem Calm.mono {m n : Nat} {r : List Token} (h : Calm m r) (hmn : m ≤ n) : Calm n r := by
  intro t ht
  have := h t ht
  revert this
  cases t.kind <;> simp [Kind.extends]
  omega

theorem Calm.nil (n : Nat) : Calm n [] := nofun

theorem calm_cons {n : Nat} {t : Token} {r : List Token} :
    Calm n (t :: r) ↔ t.kind.extends n = false := by
  simp [Calm]

theorem readSumTail_calm (c : Calc) {r : List Token} (h : Calm 0 r) :
    (readSumTail c r).value? = some (c, r) := by
  rw [readSumTail.eq_def]
  split
  · simp [calm_cons, Kind.extends] at h
  · rfl

theorem readProductTail_calm (c : Calc) {r : List Token} (h : Calm 1 r) :
    (readProductTail c r).value? = some (c, r) := by
  rw [readProductTail.eq_def]
  split
  · rename_i op _ _ _
    rw [if_neg]
    · rfl
    · intro hop
      simp [calm_cons, Kind.extends, Operator.level_of_isMultiplicative hop] at h
  · rfl

/-! ### Reading back -/

/-- How a calculation is read at each level from tokens with its words. At the levels that group to
the left, reading goes on with what follows. -/
structure Calc.Readable (c : Calc) : Prop where
  operand : 3 ≤ c.level → ∀ ts r, ts.map Token.word = c.words → Calm 3 r →
    (readOperand (ts ++ r)).value? = some (c, r)
  power : 2 ≤ c.level → ∀ ts r, ts.map Token.word = c.words → Calm 2 r →
    (readPower (ts ++ r)).value? = some (c, r)
  product : 1 ≤ c.level → ∀ ts r, ts.map Token.word = c.words → Calm 2 r →
    (readProduct (ts ++ r)).value? = (readProductTail c r).value?
  sum : ∀ ts r, ts.map Token.word = c.words → Calm 1 r →
    (readCalc (ts ++ r)).value? = (readSumTail c r).value?

namespace Calc.Readable

variable {c : Calc}

theorem of_sum (hl : c.level = 0)
    (h : ∀ ts r, ts.map Token.word = c.words → Calm 1 r →
      (readCalc (ts ++ r)).value? = (readSumTail c r).value?) : c.Readable :=
  ⟨by omega, by omega, by omega, h⟩

theorem sum_of_product (h : ∀ ts r, ts.map Token.word = c.words → Calm 2 r →
      (readProduct (ts ++ r)).value? = (readProductTail c r).value?) (ts r : List Token)
    (hts : ts.map Token.word = c.words) (hr : Calm 1 r) :
    (readCalc (ts ++ r)).value? = (readSumTail c r).value? := by
  rw [readCalc, value?_bind, h ts r hts (hr.mono (by decide)), readProductTail_calm c hr]
  rfl

theorem of_product (hl : c.level = 1)
    (h : ∀ ts r, ts.map Token.word = c.words → Calm 2 r →
      (readProduct (ts ++ r)).value? = (readProductTail c r).value?) : c.Readable :=
  ⟨by omega, by omega, fun _ => h, sum_of_product h⟩

theorem product_of_power (h : ∀ ts r, ts.map Token.word = c.words → Calm 2 r →
      (readPower (ts ++ r)).value? = some (c, r)) (ts r : List Token)
    (hts : ts.map Token.word = c.words) (hr : Calm 2 r) :
    (readProduct (ts ++ r)).value? = (readProductTail c r).value? := by
  rw [readProduct, value?_bind, h ts r hts hr]
  rfl

theorem of_power (hl : c.level = 2)
    (h : ∀ ts r, ts.map Token.word = c.words → Calm 2 r →
      (readPower (ts ++ r)).value? = some (c, r)) : c.Readable :=
  ⟨by omega, fun _ => h, fun _ => product_of_power h, sum_of_product (product_of_power h)⟩

theorem power_of_operand (h : ∀ ts r, ts.map Token.word = c.words → Calm 3 r →
      (readOperand (ts ++ r)).value? = some (c, r)) (ts r : List Token)
    (hts : ts.map Token.word = c.words) (hr : Calm 2 r) :
    (readPower (ts ++ r)).value? = some (c, r) := by
  rw [readPower]
  obtain ⟨_, hread⟩ := value?_bind_of_done (h ts r hts (hr.mono (by decide))) _
  rw [hread]
  split
  · rw [calm_cons] at hr
    cases hr
  · rfl

theorem of_operand (h : ∀ ts r, ts.map Token.word = c.words → Calm 3 r →
      (readOperand (ts ++ r)).value? = some (c, r)) : c.Readable :=
  ⟨fun _ => h, fun _ => power_of_operand h, fun _ => product_of_power (power_of_operand h),
    sum_of_product (product_of_power (power_of_operand h))⟩

/-- A calculation is read back where nothing goes on with it. -/
theorem read (h : c.Readable) {ts r : List Token} (hts : ts.map Token.word = c.words)
    (hr : Calm 0 r) : (readCalc (ts ++ r)).value? = some (c, r) := by
  rw [h.sum ts r hts (hr.mono (Nat.zero_le 1)), readSumTail_calm c hr]

/-- An operator joins calculations that its level allows. -/
theorem binary {left right : Calc} {op : Operator} (hl : left.Readable) (hr : right.Readable)
    (h : if op = .power then 2 < left.level ∧ 2 ≤ right.level
      else op.level ≤ left.level ∧ op.level < right.level) :
    (Calc.binary left op right).Readable := by
  have parts {ts : List Token} (hts : ts.map Token.word = (Calc.binary left op right).words) :
      ∃ tl lexeme position tr, ts = tl ++ ⟨.operator op, lexeme, position⟩ :: tr ∧
        tl.map Token.word = left.words ∧ tr.map Token.word = right.words := by
    obtain ⟨tl, trest, rfl, htl, htrest⟩ := List.map_eq_append_iff.mp hts
    obtain ⟨lexeme, position, tr, rfl, htr⟩ := tokens_cons htrest
    exact ⟨tl, lexeme, position, tr, rfl, htl, htr⟩
  by_cases hp : op = .power
  · subst hp
    rw [if_pos rfl] at h
    refine .of_power rfl fun ts r hts hcalm => ?_
    obtain ⟨tl, lexeme, position, tr, rfl, htl, htr⟩ := parts hts
    rw [readPower, List.append_assoc, List.cons_append]
    have hop : Calm 3 (⟨.operator .power, lexeme, position⟩ :: (tr ++ r)) := calm_cons.mpr rfl
    obtain ⟨_, hread⟩ := value?_bind_of_done (hl.operand h.1 tl _ htl hop) _
    rw [hread]
    simp [hr.power h.2 tr r htr hcalm]
  · rw [if_neg hp] at h
    by_cases ha : op.isAdditive = true
    · have hlevel := Operator.level_of_isAdditive ha
      rw [hlevel] at h
      refine .of_sum hlevel fun ts r hts hcalm => ?_
      obtain ⟨tl, lexeme, position, tr, rfl, htl, htr⟩ := parts hts
      have hop : Calm 1 (⟨.operator op, lexeme, position⟩ :: (tr ++ r)) := by
        simp [calm_cons, Kind.extends, hlevel]
      rw [List.append_assoc, List.cons_append, hl.sum tl _ htl hop, readSumTail, if_pos ha,
        value?_past, value?_bind, hr.product h.2 tr r htr (hcalm.mono (by decide)),
        readProductTail_calm right hcalm]
      rfl
    · have hm : op.isMultiplicative = true := by
        cases op <;> simp_all [Operator.isAdditive, Operator.isMultiplicative]
      have hlevel := Operator.level_of_isMultiplicative hm
      rw [hlevel] at h
      refine .of_product hlevel fun ts r hts hcalm => ?_
      obtain ⟨tl, lexeme, position, tr, rfl, htl, htr⟩ := parts hts
      have hop : Calm 2 (⟨.operator op, lexeme, position⟩ :: (tr ++ r)) := by
        simp [calm_cons, Kind.extends, hlevel]
      rw [List.append_assoc, List.cons_append, hl.product h.1 tl _ htl hop, readProductTail,
        if_pos hm, value?_past, value?_bind, hr.power h.2 tr r htr hcalm]
      rfl

end Calc.Readable

/-- The kinds of words that begin a calculation. -/
def Kind.startsCalc : Kind → Bool
  | number | name | openParen | openBracket | openBrace => true
  | _ => false

theorem Calc.words_head : (c : Calc) → ∃ w ws, c.words = w :: ws ∧ w.1.startsCalc = true
  | .number _ | .name _ | .call _ _ | .item _ _ | .group _ | .set _ | .list _ => ⟨_, _, rfl, rfl⟩
  | .binary left op right => by
    obtain ⟨w, ws, hw, hs⟩ := Calc.words_head left
    exact ⟨w, ws ++ Kind.word (.operator op) :: right.words, by rw [Calc.words, hw]; rfl, hs⟩

theorem Calc.listed_cons_head (c : Calc) (cs : List Calc) :
    ∃ w ws, Calc.listed (c :: cs) = w :: ws ∧ w.1.startsCalc = true := by
  obtain ⟨w, ws, hw, hs⟩ := c.words_head
  exact ⟨w, _, by rw [Calc.listed, hw]; rfl, hs⟩

theorem Kind.Closes.not_startsCalc {k : Kind} (h : k.Closes) : k.startsCalc = false := by
  rcases h with rfl | rfl | rfl <;> rfl

/-- Without calculations the closing bracket comes at once; with some it does not. -/
theorem readCalcs_value? {close : Kind} (hc : close.Closes) {cs : List Calc} {ts r : List Token}
    (hts : ts.map Token.word = Calc.listed cs ++ [close.word])
    (htail : cs ≠ [] → (readCalcsTail close (ts ++ r)).value? = some (cs, r)) :
    (readCalcs close (ts ++ r)).value? = some (cs, r) := by
  cases cs with
  | nil =>
    obtain ⟨lexeme, position, rfl⟩ := tokens_singleton hts
    rw [readCalcs]
    simp [expect]
  | cons c cs =>
    obtain ⟨w, ws, hw, hs⟩ := Calc.listed_cons_head c cs
    rw [hw] at hts
    obtain ⟨t, ts', rfl, rfl, -⟩ := List.map_eq_cons_iff.mp hts
    have hne : t.kind ≠ close := by
      rintro rfl
      rw [Token.word_fst, hc.not_startsCalc] at hs
      cases hs
    rw [readCalcs]
    simpa [expect, hne] using htail (by simp)

mutual

/-- A grouped calculation is read back from its words. -/
theorem Calc.Grouped.readable : (c : Calc) → c.Grouped → c.Readable
  | .number l, _ => by
    refine .of_operand fun ts r hts _ => ?_
    obtain ⟨position, ts', rfl, hts'⟩ := tokens_cons_number hts
    rw [List.map_eq_nil_iff.mp hts', List.cons_append, readOperand]
    rfl
  | .name n, _ => by
    refine .of_operand fun ts r hts hr => ?_
    obtain ⟨position, ts', rfl, hts'⟩ := tokens_cons_name hts
    rw [List.map_eq_nil_iff.mp hts', List.cons_append, List.nil_append, readOperand]
    · rfl
    · rintro lexeme position' rest rfl
      exact nomatch calm_cons.mp hr
    · rintro lexeme position' rest rfl
      exact nomatch calm_cons.mp hr
  | .call n arguments, h => by
    refine .of_operand fun ts r hts _ => ?_
    obtain ⟨position, ts', rfl, hts'⟩ := tokens_cons_name hts
    obtain ⟨lexeme, position', ts'', rfl, hts''⟩ := tokens_cons hts'
    rw [List.cons_append, List.cons_append, readOperand]
    have hread := readCalcs_value? (.inl rfl) hts''
      fun hne => Calc.AllGrouped.readCalcsTail (r := r) (.inl rfl) arguments h hne hts''
    simp [hread]
  | .item n index, h => by
    refine .of_operand fun ts r hts _ => ?_
    obtain ⟨position, ts', rfl, hts'⟩ := tokens_cons_name hts
    obtain ⟨lexeme, position', ts'', rfl, hts''⟩ := tokens_cons hts'
    obtain ⟨ti, tc, rfl, hti, htc⟩ := List.map_eq_append_iff.mp hts''
    obtain ⟨lexeme', position'', rfl⟩ := tokens_singleton htc
    have hread := (Calc.Grouped.readable index h).read (r := ⟨.closeBracket, lexeme', position''⟩ :: r)
      hti (calm_cons.mpr rfl)
    rw [List.cons_append, List.cons_append, List.append_assoc, readOperand]
    simp only [value?_past, value?_bind, List.singleton_append, hread, Option.bind_some, value?_map,
      expect_value?_cons, if_true, Option.map_some]
  | .group inner, h => by
    refine .of_operand fun ts r hts _ => ?_
    obtain ⟨lexeme, position, ts', rfl, hts'⟩ := tokens_cons hts
    obtain ⟨ti, tc, rfl, hti, htc⟩ := List.map_eq_append_iff.mp hts'
    obtain ⟨lexeme', position', rfl⟩ := tokens_singleton htc
    have hread := (Calc.Grouped.readable inner h).read (r := ⟨.closeParen, lexeme', position'⟩ :: r)
      hti (calm_cons.mpr rfl)
    rw [List.cons_append, List.append_assoc, readOperand]
    simp only [value?_past, value?_bind, List.singleton_append, hread, Option.bind_some, value?_map,
      expect_value?_cons, if_true, Option.map_some]
  | .set items, h => by
    refine .of_operand fun ts r hts _ => ?_
    obtain ⟨lexeme, position, ts', rfl, hts'⟩ := tokens_cons hts
    have hread := readCalcs_value? (.inr (.inr rfl)) hts'
      fun hne => Calc.AllGrouped.readCalcsTail (r := r) (.inr (.inr rfl)) items h.2 hne hts'
    obtain ⟨c, cs, rfl⟩ := List.exists_cons_of_ne_nil h.1
    obtain ⟨w, ws, hw, hs⟩ := Calc.listed_cons_head c cs
    rw [hw] at hts'
    obtain ⟨t, ts'', rfl, rfl, -⟩ := List.map_eq_cons_iff.mp hts'
    have hne : t.kind ≠ .closeBrace := by
      intro he
      rw [Token.word_fst, he] at hs
      exact nomatch hs
    rw [List.cons_append, readOperand, if_neg (by simpa using hne), value?_past, value?_map, hread]
    rfl
  | .list items, h => by
    refine .of_operand fun ts r hts _ => ?_
    obtain ⟨lexeme, position, ts', rfl, hts'⟩ := tokens_cons hts
    have hread := readCalcs_value? (.inr (.inl rfl)) hts'
      fun hne => Calc.AllGrouped.readCalcsTail (r := r) (.inr (.inl rfl)) items h hne hts'
    rw [List.cons_append, readOperand, value?_past, value?_map, hread]
    rfl
  | .binary left op right, ⟨hl, hr, hlevel⟩ => by
    have left_readable := Calc.Grouped.readable left hl
    have right_readable := Calc.Grouped.readable right hr
    exact Calc.Readable.binary left_readable right_readable hlevel

/-- Grouped calculations are read back from their words up to the closing bracket. -/
theorem Calc.AllGrouped.readCalcsTail {close : Kind} {ts r : List Token} (hc : close.Closes) :
    (cs : List Calc) → Calc.AllGrouped cs → cs ≠ [] →
      ts.map Token.word = Calc.listed cs ++ [close.word] →
        (readCalcsTail close (ts ++ r)).value? = some (cs, r)
  | [], _, hne, _ => nomatch hne rfl
  | [c], ⟨h, _⟩, _, hts => by
    obtain ⟨tc, tclose, rfl, htc, htclose⟩ := List.map_eq_append_iff.mp
      (show _ = c.words ++ [close.word] by simpa [Calc.listed] using hts)
    obtain ⟨lexeme, position, rfl⟩ := tokens_singleton htclose
    have hcalm : Calm 0 (⟨close, lexeme, position⟩ :: r) := by
      rcases hc with rfl | rfl | rfl <;> exact calm_cons.mpr rfl
    rw [Pseudo.readCalcsTail, List.append_assoc]
    obtain ⟨_, hread⟩ := value?_bind_of_done ((Calc.Grouped.readable c h).read htc hcalm) _
    rw [List.singleton_append, hread]
    rcases hc with rfl | rfl | rfl <;> simp
  | c :: c' :: cs, ⟨h, hs⟩, _, hts => by
    obtain ⟨tc, trest, rfl, htc, htrest⟩ := List.map_eq_append_iff.mp
      (show _ = c.words ++ Kind.comma.word :: (Calc.listed (c' :: cs) ++ [close.word]) by
        simpa [Calc.listed] using hts)
    obtain ⟨lexeme, position, ts', rfl, hts'⟩ := tokens_cons htrest
    have hcalm : Calm 0 (⟨.comma, lexeme, position⟩ :: (ts' ++ r)) := calm_cons.mpr rfl
    have htail := Calc.AllGrouped.readCalcsTail (r := r) hc (c' :: cs) hs nofun hts'
    rw [Pseudo.readCalcsTail, List.append_assoc]
    obtain ⟨_, hread⟩ := value?_bind_of_done ((Calc.Grouped.readable c h).read htc hcalm) _
    rw [List.cons_append, hread]
    simp [htail]

end

end Growth.Pseudo
