import Growth.Proofs.Pseudo.AgreeCalc
import Growth.Proofs.Pseudo.SoundStatement
import Mathlib.Data.List.Forall2

/-! Statements and the errors between them are read alike from tokens that have the same words. -/

namespace Growth.Pseudo

open Reading

variable {R : Token → Token → Prop} {ts ts' : List Token}

/-! ### Where statements begin -/

theorem startsAssignment_agrees (h : Alike R ts ts') :
    startsAssignment ts = startsAssignment ts' := by
  cases h with
  | nil => rfl
  | @cons kind _ _ _ _ _ _ _ _ h =>
    cases kind with
    | name =>
      cases h with
      | nil => rfl
      | @cons kind _ _ _ _ _ _ _ _ h =>
        cases kind with
        | openBracket =>
          cases h with
          | nil => rfl
          | @cons index _ _ _ _ _ _ _ _ h =>
            cases h with
            | nil => rfl
            | @cons kind _ _ _ _ _ _ _ _ h =>
              cases kind with
              | closeBracket =>
                cases h with
                | nil => rfl
                | @cons kind => cases kind <;> rfl
              | _ => rfl
        | _ => rfl
    | _ => rfl

theorem startsStatement_agrees (h : Alike R ts ts') :
    startsStatement ts = startsStatement ts' := by
  have hassignment := startsAssignment_agrees h
  cases h with
  | nil => rfl
  | @cons kind =>
    cases kind with
    | ifKw | forKw | repeatKw | procedureKw | returnKw => rfl
    | _ => exact hassignment

theorem resume_agrees (h : Alike R ts ts') : Alike R (resume ts).1 (resume ts').1 := by
  induction h with
  | nil => exact .nil
  | cons ht hlexeme h ih =>
    have hstarts := startsStatement_agrees (.cons ht hlexeme h)
    rw [resume, resume, ← hstarts]
    dsimp only
    split
    · exact .cons ht hlexeme h
    · exact ih

theorem recover_agrees (awaited : List Kind) (h : Alike R ts ts') :
    Alike R (recover awaited ts).1 (recover awaited ts').1 := by
  cases h with
  | nil => exact .nil
  | cons ht hlexeme h =>
    rw [recover, recover]
    dsimp only
    split
    · exact resume_agrees (.cons ht hlexeme h)
    · exact resume_agrees h

/-! ### Statements without bodies and headers of bodies -/

theorem readTarget_agrees (name : String) (h : Alike R ts ts') :
    (readTarget name ts).Agrees R Eq (readTarget name ts') := by
  cases h with
  | nil => exact .done rfl .nil
  | @cons kind _ _ _ _ _ _ ht hlexeme h =>
    cases kind with
    | openBracket =>
      refine Agrees.past ?_
      cases h with
      | nil => exact .stuck .nil
      | @cons kind _ _ _ _ _ _ ht hlexeme h =>
        cases kind with
        | number =>
          obtain rfl := hlexeme (.inl rfl)
          exact Agrees.past (expect_map_agrees .closeBracket h _)
        | name =>
          obtain rfl := hlexeme (.inr rfl)
          exact Agrees.past (expect_map_agrees .closeBracket h _)
        | _ => exact .stuck (.cons ht hlexeme h)
    | _ => exact .done rfl (.cons ht hlexeme h)

theorem readAssignment_agrees (name : String) (h : Alike R ts ts') :
    (readAssignment name ts).Agrees R Eq (readAssignment name ts') := by
  rw [readAssignment, readAssignment]
  refine (readTarget_agrees name h).bind_eq fun target _ _ _ _ hrest => ?_
  refine (expect_agrees .arrow hrest).bind fun _ _ _ _ _ _ _ hrest => ?_
  exact (readCalc_agrees hrest).map_eq

theorem startsValue_agrees (h : Alike R ts ts') : startsValue ts = startsValue ts' := by
  cases h with
  | nil => rfl
  | @cons kind => cases kind <;> rfl

theorem readResult_agrees (h : Alike R ts ts') :
    (readResult ts).Agrees R Eq (readResult ts') := by
  rw [readResult_eq, readResult_eq, ← startsValue_agrees h, ← startsAssignment_agrees h]
  split
  · exact (readCalc_agrees h).map_eq
  · exact .done rfl h

theorem readParametersTail_agrees {ts ts' : List Token} (h : Alike R ts ts') :
    (readParametersTail ts).Agrees R Eq (readParametersTail ts') := by
  rw [readParametersTail.eq_def ts, readParametersTail.eq_def ts']
  cases h with
  | nil => exact .stuck .nil
  | @cons kind _ _ _ _ _ _ ht hlexeme h =>
    cases kind with
    | name =>
      obtain rfl := hlexeme (.inr rfl)
      cases h with
      | nil => exact Agrees.past (expect_map_agrees .closeParen .nil _)
      | @cons kind _ _ _ _ _ _ ht hlexeme h =>
        cases kind with
        | comma => exact Agrees.past (Agrees.past (readParametersTail_agrees h).map_eq)
        | _ => exact Agrees.past (expect_map_agrees .closeParen (.cons ht hlexeme h) _)
    | _ => exact .stuck (.cons ht hlexeme h)
termination_by ts.length

theorem readParameters_agrees (h : Alike R ts ts') :
    (readParameters ts).Agrees R Eq (readParameters ts') := by
  have htail := readParametersTail_agrees h
  cases h with
  | nil => exact htail
  | @cons kind _ _ _ _ _ _ ht hlexeme h =>
    cases kind with
    | closeParen => exact .done rfl h
    | _ => exact htail

theorem readSignature_agrees (h : Alike R ts ts') :
    (readSignature ts).Agrees R Eq (readSignature ts') := by
  rw [readSignature, readSignature]
  refine (expect_agrees .name h).bind fun name name' _ _ _ _ hname hrest => ?_
  refine (expect_agrees .openParen hrest).bind fun _ _ _ _ _ _ _ hrest => ?_
  rw [hname rfl]
  exact (readParameters_agrees hrest).map_eq

theorem readSource_agrees (h : Alike R ts ts') :
    (readSource ts).Agrees R Eq (readSource ts') := by
  rw [readSource, readSource]
  refine (readCalc_agrees h).bind_eq fun first _ _ _ _ hrest => ?_
  cases hrest with
  | nil => exact .done rfl .nil
  | @cons kind _ _ _ _ _ _ ht hlexeme h =>
    cases kind with
    | toKw =>
      refine Agrees.past ((readCalc_agrees h).bind_eq fun last _ _ _ _ hrest => ?_)
      cases hrest with
      | nil => exact .done rfl .nil
      | @cons kind _ _ _ _ _ _ ht hlexeme h =>
        cases kind with
        | byKw => exact Agrees.past (readCalc_agrees h).map_eq
        | _ => exact .done rfl (.cons ht hlexeme h)
    | _ => exact .done rfl (.cons ht hlexeme h)

theorem readEach_agrees (h : Alike R ts ts') : (readEach ts).Agrees R Eq (readEach ts') := by
  rw [readEach, readEach]
  refine (expect_agrees .name h).bind fun counter counter' _ _ _ _ hcounter hrest => ?_
  refine (expect_agrees .inKw hrest).bind fun _ _ _ _ _ _ _ hrest => ?_
  refine (readSource_agrees hrest).bind_eq fun source _ _ _ _ hrest => ?_
  rw [hcounter rfl]
  exact expect_map_agrees .doKw hrest _

theorem readTest_agrees (h : Alike R ts ts') : (readTest ts).Agrees R Eq (readTest ts') := by
  rw [readTest, readTest]
  exact (readCondition_agrees h).bind_eq fun condition _ _ _ _ hrest =>
    expect_map_agrees .thenKw hrest condition

/-! ### Statements -/

/-- The errors on the way are alike, and so are the outcomes. -/
structure Attempt.Agrees {α : Type} (R : Token → Token → Prop) (a : Attempt α ts)
    (a' : Attempt α ts') : Prop where
  stops : List.Forall₂ (Alike R) a.stops a'.stops
  reading : a.reading.Agrees R Eq a'.reading

/-- The statements are the same, and the errors and the tokens left are alike. -/
structure Block.Agrees (R : Token → Token → Prop) (b : Block ts) (b' : Block ts') : Prop where
  statements : b.statements = b'.statements
  stops : List.Forall₂ (Alike R) b.stops b'.stops
  rest : Alike R b.rest b'.rest

namespace Attempt.Agrees

variable {α β : Type} {a : Attempt α ts} {a' : Attempt α ts'}

theorem ofReading {r : Reading α ts} {r' : Reading α ts'} (h : r.Agrees R Eq r') :
    (Attempt.ofReading r).Agrees R (Attempt.ofReading r') :=
  ⟨.nil, h⟩

theorem past {t t' : Token} (h : a.Agrees R a') : (a.past t).Agrees R (a'.past t') :=
  ⟨h.stops, h.reading.past⟩

theorem bind {next : α → (rest : List Token) → rest <:+ ts → Attempt β rest}
    {next' : α → (rest : List Token) → rest <:+ ts' → Attempt β rest} (h : a.Agrees R a')
    (hnext : ∀ v rest rest' hs hs', Alike R rest rest' →
      (next v rest hs).Agrees R (next' v rest' hs')) :
    (a.bind next).Agrees R (a'.bind next') := by
  obtain ⟨stops, r⟩ := a
  obtain ⟨stops', r'⟩ := a'
  obtain ⟨hstops, hreading⟩ := h
  cases hreading with
  | @done v _ rest rest' hs hs' hv hrest =>
    subst hv
    have hmore := hnext v rest rest' hs hs' hrest
    exact ⟨List.rel_append hstops hmore.stops, hmore.reading.widen hs hs'⟩
  | stuck hrest => exact ⟨hstops, .stuck hrest⟩

end Attempt.Agrees

/-- Blocks that agree are empty together. -/
theorem Block.Agrees.isEmpty {b : Block ts} {b' : Block ts'} (h : b.Agrees R b') :
    (b.statements.isEmpty && b.stops.isEmpty) = (b'.statements.isEmpty && b'.stops.isEmpty) := by
  rw [h.statements, Bool.eq_iff_iff, Bool.and_eq_true, Bool.and_eq_true,
    List.isEmpty_iff_length_eq_zero (l := b.stops), h.stops.length_eq,
    ← List.isEmpty_iff_length_eq_zero]

theorem Block.Agrees.body {b : Block ts} {b' : Block ts'} (h : b.Agrees R b') :
    b.body.Agrees R b'.body := by
  rw [Block.body, Block.body, h.isEmpty]
  split
  · exact ⟨.nil, .stuck h.rest⟩
  · exact ⟨h.stops, .done h.statements h.rest⟩

mutual

theorem readStatements_agrees (awaited : List Kind) {ts ts' : List Token} (h : Alike R ts ts') :
    (readStatements awaited ts).Agrees R (readStatements awaited ts') := by
  rw [readStatements.eq_def awaited ts, readStatements.eq_def awaited ts']
  cases h with
  | nil => exact ⟨rfl, .nil, .nil⟩
  | @cons kind lexeme lexeme' position position' ts ts' ht hlexeme h =>
    dsimp only
    split
    · exact ⟨rfl, .nil, .cons ht hlexeme h⟩
    have hstatement := readStatement_agrees awaited position position' hlexeme h
    generalize readStatement awaited ⟨kind, lexeme, position⟩ ts = outcome at hstatement
    generalize readStatement awaited ⟨kind, lexeme', position'⟩ ts' = outcome' at hstatement
    cases hstatement with
    | none =>
      have hle := (resume ts).2.length_le
      have hmore := readStatements_agrees awaited (resume_agrees h)
      exact ⟨hmore.statements, .cons (.cons ht hlexeme h) hmore.stops, hmore.rest⟩
    | @some a a' ha =>
      obtain ⟨stops, reading⟩ := a
      obtain ⟨stops', reading'⟩ := a'
      obtain ⟨hstops, hreading⟩ := ha
      cases hreading with
      | @done s _ rest rest' hs hs' hv hrest =>
        subst hv
        have hle := hs.length_le
        have hmore := readStatements_agrees awaited hrest
        exact ⟨congrArg (s :: ·) hmore.statements, List.rel_append hstops hmore.stops, hmore.rest⟩
      | @stuck rest rest' hs hs' hrest =>
        have hle := Nat.le_trans (recover awaited rest).2.length_le hs.length_le
        have hmore := readStatements_agrees awaited (recover_agrees awaited hrest)
        exact ⟨hmore.statements, List.rel_append hstops (.cons hrest hmore.stops), hmore.rest⟩
termination_by 3 * ts.length
decreasing_by all_goals (simp only [List.length_cons] at *; omega)

theorem readStatement_agrees (awaited : List Kind) {kind : Kind} {lexeme lexeme' : String}
    (position position' : Position) (hlexeme : kind = .number ∨ kind = .name → lexeme' = lexeme)
    {ts ts' : List Token} (h : Alike R ts ts') :
    Option.Rel (fun a a' => a.Agrees R a') (readStatement awaited ⟨kind, lexeme, position⟩ ts)
      (readStatement awaited ⟨kind, lexeme', position'⟩ ts') := by
  rw [readStatement.eq_def, readStatement.eq_def awaited ⟨kind, lexeme', position'⟩]
  cases kind with
  | name =>
    obtain rfl := hlexeme (.inr rfl)
    exact .some (.ofReading (readAssignment_agrees _ h))
  | returnKw => exact .some (.ofReading (readResult_agrees h))
  | ifKw =>
    refine .some ((Attempt.Agrees.ofReading (readTest_agrees h)).bind fun condition _ _ hs _ h => ?_)
    have hle := hs.length_le
    refine (readBody_agrees awaited _ h).bind fun body _ _ hbody _ h => ?_
    have hbodyLe := hbody.length_le
    cases h with
    | nil => exact .ofReading (expect_map_agrees .endIf .nil _)
    | @cons kind _ _ _ _ _ _ ht hlexeme h =>
      cases kind with
      | elseKw =>
        refine Attempt.Agrees.past ((readBody_agrees awaited _ h).bind fun other _ _ _ _ h => ?_)
        exact .ofReading (expect_map_agrees .endIf h _)
      | _ => exact .ofReading (expect_map_agrees .endIf (.cons ht hlexeme h) _)
  | forKw =>
    refine .some ((Attempt.Agrees.ofReading (readEach_agrees h)).bind fun header _ _ hs _ h => ?_)
    have hle := hs.length_le
    refine (readBody_agrees awaited _ h).bind fun body _ _ _ _ h => ?_
    exact .ofReading (expect_map_agrees .endFor h _)
  | repeatKw =>
    refine .some ((readBody_agrees awaited _ h).bind fun body _ _ _ _ h => .ofReading ?_)
    refine (expect_agrees .untilKw h).bind fun _ _ _ _ _ _ _ h => ?_
    exact (readCondition_agrees h).map_eq
  | procedureKw =>
    refine .some ((Attempt.Agrees.ofReading (readSignature_agrees h)).bind
      fun header _ _ hs _ h => ?_)
    have hle := hs.length_le
    refine (readBody_agrees awaited _ h).bind fun body _ _ _ _ h => ?_
    exact .ofReading (expect_map_agrees .endProc h _)
  | _ => exact .none
termination_by 3 * ts.length + 2
decreasing_by all_goals (simp only [List.length_cons] at *; omega)

theorem readBody_agrees (awaited closing : List Kind) {ts ts' : List Token}
    (h : Alike R ts ts') : (readBody awaited closing ts).Agrees R (readBody awaited closing ts') := by
  rw [readBody, readBody]
  exact (readStatements_agrees (closing ++ awaited) h).body
termination_by 3 * ts.length + 1
decreasing_by all_goals omega

end

/-- Whole texts with the same words have the same statements, and their errors are alike. -/
theorem readProgram_agrees (h : Alike R ts ts') :
    (readProgram ts).1 = (readProgram ts').1 ∧
      List.Forall₂ (Alike R) (readProgram ts).2 (readProgram ts').2 := by
  have hagrees := readStatements_agrees [] h
  unfold readProgram
  dsimp only
  rw [hagrees.isEmpty]
  split
  · exact ⟨rfl, .cons hagrees.rest .nil⟩
  · exact ⟨hagrees.statements, hagrees.stops⟩

end Growth.Pseudo
