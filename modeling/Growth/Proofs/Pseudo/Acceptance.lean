import Growth.Proofs.Pseudo.Grammar
import Growth.Pseudo.Rendition

/-! Reading accepts what the grammar derives, and nothing else. -/

namespace Growth.Pseudo

/-- Where nothing is awaited, nothing is left. -/
theorem readStatements_rest (ts : List Token) : (readStatements [] ts).rest = [] := by
  have hmade := readStatements_made [] ts
  cases hr : (readStatements [] ts).rest with
  | nil => rfl
  | cons t rest => exact nomatch hmade.stopped t (by rw [hr]; rfl)

theorem readProgram_nil : readProgram [] = ([], [[]]) := by
  simp [readProgram, readStatements, Block.empty]

/-- A text with words holds a statement or an error. -/
theorem readProgram_eq {ts : List Token} (h : ts ≠ []) :
    readProgram ts = ((readStatements [] ts).statements, (readStatements [] ts).stops) := by
  unfold readProgram
  dsimp only
  rw [if_neg]
  intro hempty
  simp only [Bool.and_eq_true, List.isEmpty_iff] at hempty
  obtain ⟨taken, htaken, -, hfull⟩ := (readStatements_made [] ts).spells
  rw [readStatements_rest, List.map_nil, List.append_nil, ← (hfull hempty.2).1, hempty.1] at htaken
  exact h (List.map_eq_nil_iff.mp htaken)

/-- Statements that are read back from their words are those that are read of them. -/
theorem readStatements_of_words {ss : List Statement} (h : Statement.AllSettled ss)
    (hf : Statement.AllFull ss) {ts : List Token}
    (hts : ts.map Token.word = Statement.wordsOf ss) : (readStatements [] ts).statements = ss := by
  have hextends : (readStatements [] (ts ++ [])).Extends ss (readStatements [] []) :=
    Statement.AllSettled.extends (List.forall_mem_nil _) Fresh.nil h hf hts
  rw [List.append_nil] at hextends
  rw [hextends.statements, readStatements]
  exact List.append_nil ss

/-- Without errors, the words of a program are those of proper statements. -/
theorem proper_of_readProgram {ts : List Token} {ss : List Statement}
    (h : readProgram ts = (ss, [])) :
    ss ≠ [] ∧ Statement.AllProper ss ∧ ts.map Token.word = Statement.wordsOf ss := by
  have hmade := readStatements_made [] ts
  unfold readProgram at h
  dsimp only at h
  split at h
  · exact nomatch congrArg Prod.snd h
  · rename_i hne
    obtain ⟨rfl, hstops⟩ := Prod.mk.inj h
    obtain ⟨taken, htaken, -, hfull⟩ := hmade.spells
    obtain ⟨hwords, hf⟩ := hfull hstops
    refine ⟨fun he => hne (by simp [he, hstops]), ?_, ?_⟩
    · exact Statement.AllGrouped.allProper _ hmade.grouped hf
    · rw [htaken, readStatements_rest, List.map_nil, List.append_nil, hwords]

/-- Where reading stops, the order of the words is wrong. -/
theorem Rendition.isLexical_stopped (ts rest : List Token) :
    (stopped ts rest).problem.isLexical = false := by
  cases rest <;> rfl

theorem isClean_iff (ts : List Token) :
    (Rendition.ofTokens ts).isClean = true ↔ (readProgram ts).1 ≠ [] ∧ (readProgram ts).2 = [] := by
  simp only [Rendition.ofTokens, Rendition.isClean]
  cases h : (readProgram ts).1 <;> simp

/-- A text is read without errors exactly when the grammar derives the kinds of its words. -/
theorem isClean_iff_derives (ts : List Token) :
    (Rendition.ofTokens ts).isClean = true ↔ Derives .block (ts.map Token.kind) := by
  rw [isClean_iff, derives_block_iff]
  constructor
  · rintro ⟨-, hstops⟩
    exact ⟨_, proper_of_readProgram (Prod.ext rfl hstops)⟩
  · rintro ⟨ss, hne, hss, hts⟩
    rw [readProgram_of_proper hss hne hts]
    exact ⟨Statement.allRegrouped_ne_nil hne, rfl⟩

end Growth.Pseudo
