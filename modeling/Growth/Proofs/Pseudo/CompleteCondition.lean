import Growth.Proofs.Pseudo.CompleteCalc

/-! A condition is read back from its words. A parenthesis that groups a calculation only is read as
one that groups a condition, unless an operator or a comparison follows it; so a condition is read
back when no calculation of it is a group by itself. -/

namespace Growth.Pseudo

open Reading

/-! ### What may follow -/

/-- A kind of word that goes on with a condition that nothing is joined to yet. -/
def Kind.continues : Kind → Bool
  | operator _ | relation _ | openParen | openBracket | inKw | notKw => true
  | _ => false

/-- The first of `r` does not go on with a condition, unless it joins another to it. -/
def Closed (r : List Token) : Prop :=
  ∀ t ∈ r.head?, t.kind.continues = false

theorem closed_cons {t : Token} {r : List Token} : Closed (t :: r) ↔ t.kind.continues = false := by
  simp [Closed]

theorem Closed.calm {r : List Token} (h : Closed r) : Calm 0 r := by
  intro t ht
  have := h t ht
  revert this
  cases t.kind <;> simp [Kind.continues, Kind.extends]

theorem Closed.comparator? {r : List Token} (h : Closed r) : comparator? r = none := by
  unfold Pseudo.comparator?
  split <;> first | rfl | exact nomatch closed_cons.mp h

theorem Closed.continuesOperand {r : List Token} (h : Closed r) : continuesOperand r = false := by
  unfold Pseudo.continuesOperand
  split
  · cases closed_cons.mp h
  · rw [h.comparator?]
    rfl

/-! ### Comparisons -/

theorem readComparison_value {c : Calc} {ts r : List Token} (hc : c.Grouped)
    (hts : ts.map Token.word = c.words) (hr : Closed r) :
    (readComparison (ts ++ r)).value? = some (.value c, r) := by
  rw [readComparison]
  obtain ⟨_, hread⟩ := value?_bind_of_done ((Calc.Grouped.readable c hc).read hts hr.calm) _
  rw [hread]
  split
  · rename_i heq
    rw [hr.comparator?] at heq
    exact nomatch heq
  · rfl

/-- The tokens of a comparator are read as that comparator. -/
theorem comparator?_of_words {op : Comparator} {ts : List Token}
    (hts : ts.map Token.word = op.words) (r : List Token) :
    Calm 0 (ts ++ r) ∧ ∃ h, comparator? (ts ++ r) = some (op, ⟨r, h⟩) := by
  cases op with
  | relation _ =>
    obtain ⟨lexeme, position, rfl⟩ := tokens_singleton hts
    exact ⟨calm_cons.mpr rfl, _, rfl⟩
  | member =>
    obtain ⟨lexeme, position, rfl⟩ := tokens_singleton hts
    exact ⟨calm_cons.mpr rfl, _, rfl⟩
  | notMember =>
    obtain ⟨lexeme, position, ts', rfl, hts'⟩ := tokens_cons hts
    obtain ⟨lexeme', position', rfl⟩ := tokens_singleton hts'
    exact ⟨calm_cons.mpr rfl, _, rfl⟩

theorem readComparison_compare {left right : Calc} {op : Comparator} {ts r : List Token}
    (hl : left.Grouped) (hr : right.Grouped)
    (hts : ts.map Token.word = (Condition.compare left op right).words) (hcalm : Calm 0 r) :
    (readComparison (ts ++ r)).value? = some (.compare left op right, r) := by
  obtain ⟨tlo, tr, rfl, htlo, htr⟩ := List.map_eq_append_iff.mp hts
  obtain ⟨tl, top, rfl, htl, hto⟩ := List.map_eq_append_iff.mp htlo
  obtain ⟨hcalm', h, hop⟩ := comparator?_of_words hto (tr ++ r)
  rw [readComparison, List.append_assoc, List.append_assoc]
  obtain ⟨_, hread⟩ := value?_bind_of_done ((Calc.Grouped.readable left hl).read htl hcalm') _
  rw [hread, hop]
  simp [(Calc.Grouped.readable right hr).read htr hcalm]

/-! ### Parentheses at the beginning -/

/-- The calculation as a condition: what its outermost parentheses group is a condition too. -/
def Calc.asCondition : Calc → Condition
  | group inner => .group inner.asCondition
  | c => .value c

@[simp] theorem Calc.asCondition_words : (c : Calc) → c.asCondition.words = c.words
  | .group inner => by
    rw [asCondition, Condition.words, asCondition_words inner, Calc.words]
  | .number _ | .name _ | .call _ _ | .item _ _ | .set _ | .list _ | .binary _ _ _ => rfl

/-- A calculation that is all in parentheses. -/
def Calc.isGroup : Calc → Bool
  | group _ => true
  | _ => false

/-- A grouped condition whose calculations are not all in parentheses, unless they are compared. -/
def Condition.Settled : Condition → Prop
  | value c => c.Grouped ∧ c.isGroup = false
  | compare left _ right => left.Grouped ∧ right.Grouped
  | negation inner => inner.Settled ∧ inner.isUnit
  | group inner => inner.Settled
  | joined left _ right => left.Settled ∧ right.Settled ∧ right.isUnit

theorem Calc.Grouped.asCondition_settled : (c : Calc) → c.Grouped → c.asCondition.Settled
  | .group inner, h => asCondition_settled inner h
  | .number _, h | .name _, h | .call _ _, h | .item _ _, h | .set _, h | .list _, h
  | .binary _ _ _, h => ⟨h, rfl⟩

/-- A calculation that begins with a parenthesis begins with a group. After that comes an operator,
unless the group is all of it. -/
theorem Calc.Grouped.opens : (c : Calc) → c.Grouped → ∀ {ws},
    c.words = Kind.openParen.word :: ws → ∃ inner tail, inner.Grouped ∧
      c.words = (Calc.group inner).words ++ tail ∧
        (c = .group inner ∧ tail = [] ∨ ∃ op ws', tail = Kind.word (.operator op) :: ws')
  | .group inner, h, _, _ => ⟨inner, [], h, by simp, .inl ⟨rfl, rfl⟩⟩
  | .binary left op right, h, ws, hws => by
    obtain ⟨w, lws, hlw, -⟩ := left.words_head
    have hl : left.words = Kind.openParen.word :: lws := by
      rw [Calc.words, hlw] at hws
      rw [hlw, List.cons_append] at *
      rw [(List.cons.inj hws).1]
    obtain ⟨inner, tail, hinner, heq, htail⟩ := opens left h.1 hl
    refine ⟨inner, tail ++ Kind.word (.operator op) :: right.words, hinner, ?_, .inr ?_⟩
    · show left.words ++ _ = _
      rw [heq, List.append_assoc]
    · obtain ⟨-, rfl⟩ | ⟨op', ws', rfl⟩ := htail
      · exact ⟨op, _, rfl⟩
      · exact ⟨op', _, rfl⟩
  | .number _, _, _, h | .name _, _, _, h | .call _ _, _, _, h | .item _ _, _, _, h
  | .set _, _, _, h | .list _, _, _, h => by simp [Calc.words, Kind.word] at h

/-- Where a calculation or a comparison begins otherwise, or reading a parenthesis at its beginning
as a condition stops before an operator or a comparison, it is read as what it is. -/
theorem readUnit_eq_readComparison {t : Token} {ts : List Token} (hn : t.kind ≠ .notKw)
    (h : t.kind = .openParen → ∀ inner rest,
      (readCondition ts).value? = some (inner, rest) → ∀ t' rest', rest = t' :: rest' →
        t'.kind = .closeParen → continuesOperand rest' = true) :
    (readUnit (t :: ts)).value? = (readComparison (t :: ts)).value? := by
  obtain ⟨kind, lexeme, position⟩ := t
  by_cases hk : kind = .openParen
  · subst hk
    rw [readUnit]
    split
    · rename_i inner rest' _ hread
      have hdone : (readCondition ts).value?.bind (fun p => (expect .closeParen p.2).value?.map
          fun q => (Condition.group p.1, q.2)) = some (inner, rest') := by
        have := congrArg value? hread
        simpa [value?_bind] using this
      obtain ⟨⟨inner', rest⟩, hc, hclose⟩ := Option.bind_eq_some_iff.mp hdone
      cases rest with
      | nil => cases hclose
      | cons t' rest'' =>
        by_cases hk : t'.kind = .closeParen
        · simp only [expect_value?_cons, hk, if_true, Option.map_some, Option.some.injEq,
            Prod.mk.injEq] at hclose
          obtain ⟨rfl, rfl⟩ := hclose
          rw [if_pos (h rfl inner' _ hc t' rest'' rfl hk)]
        · simp [hk] at hclose
    · rfl
  · rw [readUnit]
    · rintro lexeme position rest ⟨⟩
      exact hn rfl
    · rintro lexeme position rest ⟨⟩
      exact hk rfl

/-! ### Reading back -/

/-- How a condition is read from tokens with its words. What is joined to it is read on. -/
structure Condition.Readable (c : Condition) : Prop where
  unit : c.isUnit = true → ∀ ts r, ts.map Token.word = c.words → Closed r →
    (readUnit (ts ++ r)).value? = some (c, r)
  whole : ∀ ts r, ts.map Token.word = c.words → Closed r →
    (readCondition (ts ++ r)).value? = (readConditionTail c r).value?

theorem readConditionTail_closed (c : Condition) {r : List Token} (h : Closed r)
    (hj : ∀ t ∈ r.head?, t.kind ≠ .andKw ∧ t.kind ≠ .orKw) :
    (readConditionTail c r).value? = some (c, r) := by
  rw [readConditionTail.eq_def]
  split
  · exact absurd rfl (hj _ rfl).1
  · exact absurd rfl (hj _ rfl).2
  · rfl

namespace Condition.Readable

variable {c : Condition}

theorem of_unit (h : ∀ ts r, ts.map Token.word = c.words → Closed r →
    (readUnit (ts ++ r)).value? = some (c, r)) : c.Readable := by
  refine ⟨fun _ => h, fun ts r hts hr => ?_⟩
  rw [readCondition, value?_bind, h ts r hts hr]
  rfl

/-- A condition is read back where nothing goes on with it. -/
theorem read (h : c.Readable) {ts r : List Token} (hts : ts.map Token.word = c.words)
    (hr : Closed r) (hj : ∀ t ∈ r.head?, t.kind ≠ .andKw ∧ t.kind ≠ .orKw) :
    (readCondition (ts ++ r)).value? = some (c, r) := by
  rw [h.whole ts r hts hr, readConditionTail_closed c hr hj]

theorem negation (h : c.Readable) (hu : c.isUnit = true) : (Condition.negation c).Readable := by
  refine .of_unit fun ts r hts hr => ?_
  obtain ⟨lexeme, position, ts', rfl, hts'⟩ := tokens_cons hts
  rw [List.cons_append, readUnit, value?_past, value?_map, h.unit hu ts' r hts' hr]
  rfl

theorem joined {right : Condition} (k : Connective) (hl : c.Readable) (hr : right.Readable)
    (hu : right.isUnit = true) : (Condition.joined c k right).Readable := by
  refine ⟨nofun, fun ts r hts hclosed => ?_⟩
  obtain ⟨tl, trest, rfl, htl, htrest⟩ := List.map_eq_append_iff.mp hts
  obtain ⟨lexeme, position, tr, rfl, htr⟩ := tokens_cons htrest
  have hk : Closed (⟨k.kind, lexeme, position⟩ :: (tr ++ r)) := by
    cases k <;> exact closed_cons.mpr rfl
  rw [List.append_assoc, List.cons_append, hl.whole tl _ htl hk]
  cases k
  all_goals
    rw [Connective.kind, readConditionTail, value?_past, value?_bind, hr.unit hu tr r htr hclosed]
    rfl

/-- What is in parentheses is read up to the closing one. -/
theorem read_inner (h : c.Readable) {lexeme : String} {position : Position} {ts : List Token}
    (hts : ts.map Token.word = c.words) (r : List Token) :
    (readCondition (ts ++ ⟨.closeParen, lexeme, position⟩ :: r)).value? =
      some (c, ⟨.closeParen, lexeme, position⟩ :: r) := by
  refine h.read hts (closed_cons.mpr rfl) ?_
  rintro t ⟨⟩
  exact ⟨nofun, nofun⟩

theorem group (h : c.Readable) : (Condition.group c).Readable := by
  refine .of_unit fun ts r hts hr => ?_
  obtain ⟨lexeme, position, ts', rfl, hts'⟩ := tokens_cons hts
  obtain ⟨ti, tc, rfl, hti, htc⟩ := List.map_eq_append_iff.mp hts'
  obtain ⟨lexeme', position', rfl⟩ := tokens_singleton htc
  have hread : ((readCondition (ti ++ ⟨.closeParen, lexeme', position'⟩ :: r)).bind
      fun inner rest _ => (expect .closeParen rest).map fun _ => Condition.group inner).value? =
      some (Condition.group c, r) := by
    rw [value?_bind, h.read_inner hti r]
    simp
  rw [List.cons_append, List.append_assoc, List.singleton_append, readUnit]
  split
  · rename_i inner rest' _ heq
    have := congrArg value? heq
    rw [value?_past, hread, value?_done] at this
    cases this
    rw [if_neg (by simp [hr.continuesOperand])]
    rfl
  · rename_i heq
    have := congrArg value? heq
    rw [value?_past, hread] at this
    cases this

/-- Where a group comes first and an operator or a comparison follows it, the group belongs to a
calculation. -/
theorem readUnit_group {inner : Calc} (h : inner.asCondition.Readable) {tail : List Word}
    {ts r : List Token} (hts : ts.map Token.word = (Calc.group inner).words ++ tail)
    (htail : ∀ tt, tt.map Token.word = tail → continuesOperand (tt ++ r) = true) :
    (readUnit (ts ++ r)).value? = (readComparison (ts ++ r)).value? := by
  obtain ⟨tg, tt, rfl, htg, htt⟩ := List.map_eq_append_iff.mp hts
  obtain ⟨lexeme, position, ts', rfl, hts'⟩ := tokens_cons htg
  obtain ⟨ti, tc, rfl, hti, htc⟩ := List.map_eq_append_iff.mp hts'
  obtain ⟨lexeme', position', rfl⟩ := tokens_singleton htc
  have hread : (readCondition (ti ++ ⟨.closeParen, lexeme', position'⟩ :: (tt ++ r))).value? = _ :=
    h.read_inner (hti.trans inner.asCondition_words.symm) (tt ++ r)
  refine readUnit_eq_readComparison nofun fun _ inner' rest hinner t' rest' hrest _ => ?_
  rw [List.append_eq, List.append_eq, List.append_assoc, List.append_assoc, List.singleton_append,
    hread] at hinner
  cases hinner
  cases hrest
  exact htail tt htt

end Condition.Readable

theorem continuesOperand_of_comparator {op : Comparator} {ts : List Token}
    (hts : ts.map Token.word = op.words) (r : List Token) :
    continuesOperand (ts ++ r) = true := by
  obtain ⟨-, h, hop⟩ := comparator?_of_words hts r
  unfold continuesOperand
  split
  · rfl
  · rw [hop]
    rfl

/-- A calculation, or two that are compared, is read as a comparison from its words `ws`. -/
theorem readUnit_calc {c : Calc} (hc : c.Grouped) {tail : List Word} {ts r : List Token}
    (hts : ts.map Token.word = c.words ++ tail)
    (htail : c.isGroup = true → ∀ tt, tt.map Token.word = tail → continuesOperand (tt ++ r) = true)
    (h : ∀ inner, (Calc.group inner).words.length ≤ c.words.length → inner.Grouped →
      inner.asCondition.Readable) :
    (readUnit (ts ++ r)).value? = (readComparison (ts ++ r)).value? := by
  obtain ⟨w, ws, hw, hs⟩ := c.words_head
  have htw := hts
  rw [hw, List.cons_append] at htw
  obtain ⟨t, ts', rfl, rfl, -⟩ := List.map_eq_cons_iff.mp htw
  by_cases hk : t.kind = .openParen
  · rw [Token.word_of_kind hk nofun nofun] at hw
    obtain ⟨inner, rest, hinner, heq, hrest⟩ := Calc.Grouped.opens c hc hw
    have hlength : (Calc.group inner).words.length ≤ c.words.length := by
      rw [heq, List.length_append]
      exact Nat.le_add_right _ _
    rw [heq, List.append_assoc] at hts
    refine (h inner hlength hinner).readUnit_group hts fun tt htt => ?_
    obtain ⟨rfl, rfl⟩ | ⟨op, ws', rfl⟩ := hrest
    · exact htail rfl tt (by simpa using htt)
    · obtain ⟨lexeme, position, tt', rfl, -⟩ := tokens_cons htt
      rfl
  · refine readUnit_eq_readComparison ?_ fun hp => absurd hp hk
    intro hn
    rw [Token.word_fst, hn] at hs
    exact nomatch hs

/-- A settled condition is read back from its words. -/
theorem Condition.Settled.readable (c : Condition) (h : c.Settled) : c.Readable := by
  cases c with
  | value c =>
    refine .of_unit fun ts r hts hr => ?_
    have hwords : ts.map Token.word = c.words ++ [] := by simpa [Condition.words] using hts
    rw [readUnit_calc h.1 hwords (fun hg => absurd hg (by simp [h.2]))
      fun inner _ hi => Condition.Settled.readable inner.asCondition hi.asCondition_settled]
    exact readComparison_value h.1 hts hr
  | compare left op right =>
    refine .of_unit fun ts r hts hr => ?_
    have hwords : ts.map Token.word = left.words ++ (op.words ++ right.words) := by
      simpa [Condition.words] using hts
    rw [readUnit_calc h.1 hwords]
    · exact readComparison_compare h.1 h.2 hts hr.calm
    · intro _ tt htt
      obtain ⟨top, tr, rfl, hto, -⟩ := List.map_eq_append_iff.mp htt
      rw [List.append_assoc]
      exact continuesOperand_of_comparator hto _
    · intro inner _ hi
      exact Condition.Settled.readable inner.asCondition hi.asCondition_settled
  | negation inner => exact (Condition.Settled.readable inner h.1).negation h.2
  | group inner => exact (Condition.Settled.readable inner h).group
  | joined left k right =>
    exact (Condition.Settled.readable left h.1).joined k (Condition.Settled.readable right h.2.1)
      h.2.2
termination_by c.words.length
decreasing_by
  all_goals simp_all [Condition.words, Calc.words]
  all_goals omega

end Growth.Pseudo
