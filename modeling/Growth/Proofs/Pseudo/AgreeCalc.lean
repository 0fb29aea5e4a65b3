import Growth.Pseudo.ReadCondition

/-! Reading looks at words only: at the kinds of tokens, and at the spelling of numbers and names.
Tokens that have the same words are read alike, whatever else they are. -/

namespace Growth.Pseudo

/-- The tokens have the same words, and are related by `R` one by one. -/
inductive Alike (R : Token → Token → Prop) : List Token → List Token → Prop
  | nil : Alike R [] []
  | cons {kind : Kind} {lexeme lexeme' : String} {position position' : Position}
      {ts ts' : List Token} (ht : R ⟨kind, lexeme, position⟩ ⟨kind, lexeme', position'⟩)
      (hlexeme : kind = .number ∨ kind = .name → lexeme' = lexeme) (h : Alike R ts ts') :
      Alike R (⟨kind, lexeme, position⟩ :: ts) (⟨kind, lexeme', position'⟩ :: ts')

theorem Alike.head?_kind {R : Token → Token → Prop} {ts ts' : List Token} (h : Alike R ts ts')
    (kind : Kind) :
    (ts.head?.any fun t => t.kind = kind) = ts'.head?.any fun t => t.kind = kind := by
  cases h <;> rfl

namespace Reading

variable {R : Token → Token → Prop} {α β : Type} {ts ts' : List Token}

/-- Both outcomes have values that are related by `S`, or neither has one, and the tokens left are
alike. -/
inductive Agrees (R : Token → Token → Prop) (S : α → α → Prop) :
    Reading α ts → Reading α ts' → Prop
  | done {v v' : α} {rest rest' : List Token} {h : rest <:+ ts} {h' : rest' <:+ ts'} (hv : S v v')
      (hrest : Alike R rest rest') : Agrees R S (.done v rest h) (.done v' rest' h')
  | stuck {rest rest' : List Token} {h : rest <:+ ts} {h' : rest' <:+ ts'}
      (hrest : Alike R rest rest') : Agrees R S (.stuck rest h) (.stuck rest' h')

namespace Agrees

variable {S : α → α → Prop} {T : β → β → Prop} {r : Reading α ts} {r' : Reading α ts'}

theorem eq_done {v : α} {rest : List Token} {h : rest <:+ ts}
    (hr : (Reading.done v rest h).Agrees R S r') :
    ∃ v' rest' h', S v v' ∧ Alike R rest rest' ∧ r' = .done v' rest' h' := by
  cases hr with
  | done hv hrest => exact ⟨_, _, _, hv, hrest, rfl⟩

theorem eq_stuck {rest : List Token} {h : rest <:+ ts}
    (hr : (Reading.stuck rest h : Reading α ts).Agrees R S r') :
    ∃ rest' h', r' = .stuck rest' h' := by
  cases hr with
  | stuck => exact ⟨_, _, rfl⟩

theorem widen {us us' : List Token} (h : ts <:+ us) (h' : ts' <:+ us') (hr : r.Agrees R S r') :
    (r.widen h).Agrees R S (r'.widen h') := by
  cases hr with
  | done hv hrest => exact .done hv hrest
  | stuck hrest => exact .stuck hrest

theorem past {t t' : Token} (hr : r.Agrees R S r') : (r.past t).Agrees R S (r'.past t') :=
  hr.widen _ _

theorem map {f f' : α → β} (hr : r.Agrees R S r') (hf : ∀ v v', S v v' → T (f v) (f' v')) :
    (r.map f).Agrees R T (r'.map f') := by
  cases hr with
  | done hv hrest => exact .done (hf _ _ hv) hrest
  | stuck hrest => exact .stuck hrest

theorem map_eq {f : α → β} (hr : r.Agrees R Eq r') : (r.map f).Agrees R Eq (r'.map f) :=
  hr.map fun _ _ => congrArg f

theorem bind {next : α → (rest : List Token) → rest <:+ ts → Reading β rest}
    {next' : α → (rest : List Token) → rest <:+ ts' → Reading β rest} (hr : r.Agrees R S r')
    (h : ∀ v v' rest rest' hs hs', S v v' → Alike R rest rest' →
      (next v rest hs).Agrees R T (next' v' rest' hs')) :
    (r.bind next).Agrees R T (r'.bind next') := by
  cases hr with
  | @done _ _ _ _ hs hs' hv hrest => exact (h _ _ _ _ hs hs' hv hrest).widen hs hs'
  | stuck hrest => exact .stuck hrest

theorem bind_eq {next : α → (rest : List Token) → rest <:+ ts → Reading β rest}
    {next' : α → (rest : List Token) → rest <:+ ts' → Reading β rest} (hr : r.Agrees R Eq r')
    (h : ∀ v rest rest' hs hs', Alike R rest rest' →
      (next v rest hs).Agrees R T (next' v rest' hs')) :
    (r.bind next).Agrees R T (r'.bind next') := by
  refine hr.bind fun v v' rest rest' hs hs' hv hrest => ?_
  subst hv
  exact h v rest rest' hs hs' hrest

end Agrees

end Reading

open Reading

variable {R : Token → Token → Prop} {ts ts' : List Token}

theorem expect_agrees (kind : Kind) (h : Alike R ts ts') :
    (expect kind ts).Agrees R (fun t t' => kind = .name → t'.lexeme = t.lexeme)
      (expect kind ts') := by
  cases h with
  | nil => exact .stuck .nil
  | @cons k _ _ _ _ _ _ ht hlexeme h =>
    rw [expect, expect]
    split
    · rename_i hkind
      exact .done (fun hname => hlexeme (.inr (hkind.trans hname))) h
    · exact .stuck (.cons ht hlexeme h)

/-- A word whose spelling does not count. -/
theorem expect_map_agrees {α : Type} (kind : Kind) (h : Alike R ts ts') (v : α) :
    ((expect kind ts).map fun _ => v).Agrees R Eq ((expect kind ts').map fun _ => v) :=
  (expect_agrees kind h).map fun _ _ _ => rfl

/-! ### Calculations -/

mutual

theorem readCalc_agrees {ts ts' : List Token} (h : Alike R ts ts') :
    (readCalc ts).Agrees R Eq (readCalc ts') := by
  rw [readCalc, readCalc]
  exact (readProduct_agrees h).bind_eq fun left _ _ hs _ hrest =>
    have hle := hs.length_le
    readSumTail_agrees left hrest
termination_by 8 * ts.length + 5
decreasing_by all_goals omega

theorem readSumTail_agrees (left : Calc) {ts ts' : List Token}
    (h : Alike R ts ts') :
    (readSumTail left ts).Agrees R Eq (readSumTail left ts') := by
  rw [readSumTail.eq_def left ts, readSumTail.eq_def left ts']
  cases h with
  | nil => exact .done rfl .nil
  | @cons kind _ _ _ _ _ _ ht hlexeme h =>
    cases kind with
    | operator op =>
      dsimp only
      split
      · refine Agrees.past ((readProduct_agrees h).bind_eq fun right _ _ hs _ hrest => ?_)
        have hle := hs.length_le
        exact readSumTail_agrees _ hrest
      · exact .done rfl (.cons ht hlexeme h)
    | _ => exact .done rfl (.cons ht hlexeme h)
termination_by 8 * ts.length + 4
decreasing_by all_goals (simp only [List.length_cons] at *; omega)

theorem readProduct_agrees {ts ts' : List Token} (h : Alike R ts ts') :
    (readProduct ts).Agrees R Eq (readProduct ts') := by
  rw [readProduct, readProduct]
  exact (readPower_agrees h).bind_eq fun left _ _ hs _ hrest =>
    have hle := hs.length_le
    readProductTail_agrees left hrest
termination_by 8 * ts.length + 3
decreasing_by all_goals omega

theorem readProductTail_agrees (left : Calc) {ts ts' : List Token}
    (h : Alike R ts ts') :
    (readProductTail left ts).Agrees R Eq (readProductTail left ts') := by
  rw [readProductTail.eq_def left ts, readProductTail.eq_def left ts']
  cases h with
  | nil => exact .done rfl .nil
  | @cons kind _ _ _ _ _ _ ht hlexeme h =>
    cases kind with
    | operator op =>
      dsimp only
      split
      · refine Agrees.past ((readPower_agrees h).bind_eq fun right _ _ hs _ hrest => ?_)
        have hle := hs.length_le
        exact readProductTail_agrees _ hrest
      · exact .done rfl (.cons ht hlexeme h)
    | _ => exact .done rfl (.cons ht hlexeme h)
termination_by 8 * ts.length + 2
decreasing_by all_goals (simp only [List.length_cons] at *; omega)

theorem readPower_agrees {ts ts' : List Token} (h : Alike R ts ts') :
    (readPower ts).Agrees R Eq (readPower ts') := by
  rw [readPower, readPower]
  refine (readOperand_agrees h).bind_eq fun base rest rest' hs _ hrest => ?_
  have hle := hs.length_le
  cases hrest with
  | nil => exact .done rfl .nil
  | @cons kind _ _ _ _ _ _ ht hlexeme h =>
    cases kind with
    | operator op =>
      cases op with
      | power => exact Agrees.past (readPower_agrees h).map_eq
      | _ => exact .done rfl (.cons ht hlexeme h)
    | _ => exact .done rfl (.cons ht hlexeme h)
termination_by 8 * ts.length + 1
decreasing_by all_goals (simp only [List.length_cons] at *; omega)

theorem readOperand_agrees {ts ts' : List Token} (h : Alike R ts ts') :
    (readOperand ts).Agrees R Eq (readOperand ts') := by
  rw [readOperand.eq_def ts, readOperand.eq_def ts']
  cases h with
  | nil => exact .stuck .nil
  | @cons kind lexeme _ _ _ _ _ ht hlexeme h =>
    cases kind with
    | openParen =>
      refine Agrees.past ((readCalc_agrees h).bind_eq fun inner _ _ _ _ hrest => ?_)
      exact expect_map_agrees .closeParen hrest _
    | number =>
      obtain rfl := hlexeme (.inl rfl)
      exact .done rfl h
    | name =>
      obtain rfl := hlexeme (.inr rfl)
      cases h with
      | nil => exact .done rfl .nil
      | @cons kind _ _ _ _ _ _ ht hlexeme h =>
        cases kind with
        | openParen => exact Agrees.past (Agrees.past (readCalcs_agrees .closeParen h).map_eq)
        | openBracket =>
          refine Agrees.past (Agrees.past
            ((readCalc_agrees h).bind_eq fun index _ _ _ _ hrest => ?_))
          exact expect_map_agrees .closeBracket hrest _
        | _ => exact .done rfl (.cons ht hlexeme h)
    | openBrace =>
      refine Agrees.past ?_
      rw [← h.head?_kind .closeBrace]
      split
      · exact .stuck h
      · exact (readCalcs_agrees .closeBrace h).map_eq
    | openBracket => exact Agrees.past (readCalcs_agrees .closeBracket h).map_eq
    | _ => exact .stuck (.cons ht hlexeme h)
termination_by 8 * ts.length
decreasing_by all_goals (simp only [List.length_cons] at *; omega)

theorem readCalcs_agrees (close : Kind) {ts ts' : List Token}
    (h : Alike R ts ts') :
    (readCalcs close ts).Agrees R Eq (readCalcs close ts') := by
  rw [readCalcs, readCalcs]
  have hclose := expect_agrees close h
  generalize expect close ts = r at hclose
  generalize expect close ts' = r' at hclose
  cases hclose with
  | done _ hrest => exact .done rfl hrest
  | stuck => exact readCalcsTail_agrees close h
termination_by 8 * ts.length + 7
decreasing_by all_goals omega

theorem readCalcsTail_agrees (close : Kind) {ts ts' : List Token}
    (h : Alike R ts ts') :
    (readCalcsTail close ts).Agrees R Eq (readCalcsTail close ts') := by
  rw [readCalcsTail, readCalcsTail]
  refine (readCalc_agrees h).bind_eq fun first rest rest' hs _ hrest => ?_
  have hle := hs.length_le
  cases hrest with
  | nil => exact expect_map_agrees close .nil _
  | @cons kind _ _ _ _ _ _ ht hlexeme h =>
    cases kind with
    | comma => exact Agrees.past (readCalcsTail_agrees close h).map_eq
    | _ => exact expect_map_agrees close (.cons ht hlexeme h) _
termination_by 8 * ts.length + 6
decreasing_by all_goals (simp only [List.length_cons] at *; omega)

end

/-! ### Conditions -/

/-- Neither of the texts begins with a comparison, or both begin with the same one. -/
theorem comparator?_agrees (h : Alike R ts ts') :
    comparator? ts = none ∧ comparator? ts' = none ∨
      ∃ op rest rest', Alike R rest.1 rest'.1 ∧ comparator? ts = some (op, rest) ∧
        comparator? ts' = some (op, rest') := by
  cases h with
  | nil => exact .inl ⟨rfl, rfl⟩
  | @cons kind _ _ _ _ _ _ ht hlexeme h =>
    cases kind with
    | relation r => exact .inr ⟨_, _, _, h, rfl, rfl⟩
    | inKw => exact .inr ⟨_, _, _, h, rfl, rfl⟩
    | notKw =>
      cases h with
      | nil => exact .inl ⟨rfl, rfl⟩
      | @cons kind _ _ _ _ _ _ ht hlexeme h =>
        cases kind with
        | inKw => exact .inr ⟨_, _, _, h, rfl, rfl⟩
        | _ => exact .inl ⟨rfl, rfl⟩
    | _ => exact .inl ⟨rfl, rfl⟩

theorem continuesOperand_agrees (h : Alike R ts ts') :
    continuesOperand ts = continuesOperand ts' := by
  have hcomparator : (comparator? ts).isSome = (comparator? ts').isSome := by
    obtain ⟨h1, h2⟩ | ⟨op, rest, rest', -, h1, h2⟩ := comparator?_agrees h
    · rw [h1, h2]
      rfl
    · rw [h1, h2]
      rfl
  cases h with
  | nil => rfl
  | @cons kind _ _ _ _ _ _ ht hlexeme h =>
    cases kind with
    | operator op => rfl
    | _ => exact hcomparator

theorem readComparison_agrees (h : Alike R ts ts') :
    (readComparison ts).Agrees R Eq (readComparison ts') := by
  rw [readComparison, readComparison]
  refine (readCalc_agrees h).bind_eq fun left rest rest' _ _ hrest => ?_
  obtain ⟨h1, h2⟩ | ⟨op, ⟨more, hs⟩, ⟨more', hs'⟩, hmore, h1, h2⟩ := comparator?_agrees hrest
  · rw [h1, h2]
    exact .done rfl hrest
  · rw [h1, h2]
    exact (readCalc_agrees hmore).map_eq.widen hs hs'

mutual

theorem readCondition_agrees {ts ts' : List Token} (h : Alike R ts ts') :
    (readCondition ts).Agrees R Eq (readCondition ts') := by
  rw [readCondition, readCondition]
  exact (readUnit_agrees h).bind_eq fun left _ _ hs _ hrest =>
    have hle := hs.length_le
    readConditionTail_agrees left hrest
termination_by 3 * ts.length + 2
decreasing_by all_goals omega

theorem readConditionTail_agrees (left : Condition) {ts ts' : List Token} (h : Alike R ts ts') :
    (readConditionTail left ts).Agrees R Eq (readConditionTail left ts') := by
  rw [readConditionTail.eq_def left ts, readConditionTail.eq_def left ts']
  cases h with
  | nil => exact .done rfl .nil
  | @cons kind _ _ _ _ _ _ ht hlexeme h =>
    cases kind with
    | andKw | orKw =>
      refine Agrees.past ((readUnit_agrees h).bind_eq fun right _ _ hs _ hrest => ?_)
      have hle := hs.length_le
      exact readConditionTail_agrees _ hrest
    | _ => exact .done rfl (.cons ht hlexeme h)
termination_by 3 * ts.length + 1
decreasing_by all_goals (simp only [List.length_cons] at *; omega)

theorem readUnit_agrees {ts ts' : List Token} (h : Alike R ts ts') :
    (readUnit ts).Agrees R Eq (readUnit ts') := by
  rw [readUnit.eq_def ts, readUnit.eq_def ts']
  have hcomparison := readComparison_agrees h
  cases h with
  | nil => exact hcomparison
  | @cons kind lexeme lexeme' position position' ts ts' ht hlexeme h =>
    cases kind with
    | notKw => exact Agrees.past (readUnit_agrees h).map_eq
    | openParen =>
      have hgroup : (((readCondition ts).bind fun inner rest _ =>
            (expect .closeParen rest).map fun _ => Condition.group inner).past
              ⟨.openParen, lexeme, position⟩).Agrees R Eq
          (((readCondition ts').bind fun inner rest _ =>
            (expect .closeParen rest).map fun _ => Condition.group inner).past
              ⟨.openParen, lexeme', position'⟩) :=
        Agrees.past ((readCondition_agrees h).bind_eq fun inner rest _ _ _ hrest =>
          expect_map_agrees .closeParen hrest (Condition.group inner))
      dsimp only
      split
      · rename_i inner rest hs heq
        rw [heq] at hgroup
        obtain ⟨_, rest', hs', rfl, hrest, heq'⟩ := hgroup.eq_done
        rw [heq']
        dsimp only
        rw [← continuesOperand_agrees hrest]
        split
        · exact hcomparison
        · exact .done rfl hrest
      · rename_i heq
        rw [heq] at hgroup
        obtain ⟨rest', hs', heq'⟩ := hgroup.eq_stuck
        rw [heq']
        exact hcomparison
    | _ => exact hcomparison
termination_by 3 * ts.length
decreasing_by all_goals (simp only [List.length_cons] at *; omega)

end

end Growth.Pseudo
