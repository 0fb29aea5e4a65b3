import Growth.Proofs.Code.PrintedStatement
import Growth.Proofs.Pseudo.Acceptance
import Growth.Proofs.Rendition.Statement

/-! What pseudocode becomes is read as target code, so long as no name is a keyword of target code,
and it has the structure of the pseudocode. -/

namespace Growth.Pseudo

open Code (indents_tab)

namespace Rendition

/-- The statements that are read of a text are made of its words. -/
theorem mem_words_of_readStatements {ts : List Token} :
    ∀ w ∈ Statement.wordsOf (readStatements [] ts).statements, w ∈ ts.map Token.word := by
  obtain ⟨taken, htaken, hsub, -⟩ := (readStatements_made [] ts).spells
  intro w hw
  rw [htaken]
  exact List.mem_append_left _ (hsub.subset hw)

/-- The code for words, with its blocks marked, is the lines of the statements that were read. -/
theorem marked_eq_some_iff {ts : List Token} {code : String} :
    (ofTokens ts).code = some code ↔ (readStatements [] ts).statements ≠ [] ∧
      code = String.join ((Statement.linesOf (readStatements [] ts).statements).map Line.text) := by
  have hprogram : (readProgram ts).1 = (readStatements [] ts).statements := by
    unfold readProgram
    dsimp only
    split
    · rename_i hempty
      simp only [Bool.and_eq_true, List.isEmpty_iff] at hempty
      exact hempty.1.symm
    · rfl
  unfold ofTokens
  dsimp only
  rw [hprogram]
  cases (readStatements [] ts).statements with
  | nil => simp
  | cons s ss => simp [eq_comm]

/-- The code for a text is laid out of the lines of the statements that were read. -/
theorem code_eq_some_iff {source code : String} : (ofText source).code = some code ↔
    (readStatements [] (tokens source)).statements ≠ [] ∧ code = Layout.resolved
      (String.join
        ((Statement.linesOf (readStatements [] (tokens source)).statements).map Line.text)) := by
  unfold ofText
  dsimp only
  rw [Option.map_eq_some_iff]
  simp only [marked_eq_some_iff]
  constructor
  · rintro ⟨marked, ⟨hne, rfl⟩, rfl⟩
    exact ⟨hne, rfl⟩
  · rintro ⟨hne, rfl⟩
    exact ⟨_, ⟨hne, rfl⟩, rfl⟩

/-- The code for a text is read as what target code reads for the statements that it is made of, or
not at all. -/
theorem exists_rendering {source code : String} (h : (ofText source).code = some code) :
    ∃ ss o, ss = (readStatements [] (tokens source)).statements ∧
      Meets (Statement.wordsOf ss)
        (fun ss' => Statement.AllFull ss → Statement.AllRender ss ss') o ∧
      match o with
      | some ss' => Code.Module.ofText code = .ok ⟨ss'⟩
      | none => ∃ e, Code.Module.ofText code = .error e := by
  obtain ⟨hne, rfl⟩ := code_eq_some_iff.mp h
  have hgrouped := (readStatements_made [] (tokens source)).grouped
  have hspelled : Statement.AllSpelled (readStatements [] (tokens source)).statements :=
    fun w hw => spelled_of_tokens w (mem_words_of_readStatements w hw)
  generalize (readStatements [] (tokens source)).statements = ss at *
  obtain ⟨cs, o, hlays, hread, hmeets⟩ := Statement.body_translates 0 ss hgrouped hspelled
  rw [Line.body_of_ne_nil (Statement.linesOf_ne_nil hne)] at hlays
  refine ⟨ss, o, rfl, ⟨hmeets.accepted, hmeets.rejected, fun ss' hss' hfull => ?_⟩, ?_⟩
  · exact hmeets.holds ss' hss' ⟨hne, hfull⟩
  · have hmodule := hread.ofText indents_tab hlays.ne_nil (.inr hlays.resolved)
    cases o <;> exact hmodule

/-- A character that begins no word is wrong in itself. -/
theorem isLexical_of_mem_strays {source : String} :
    ∀ d ∈ strays source, d.problem.isLexical = true := by
  intro d hd
  obtain ⟨⟨p, piece⟩, -, hpiece⟩ := List.mem_filterMap.mp hd
  split at hpiece
  · cases hpiece
    rfl
  · exact nomatch hpiece

/-- Nothing but characters that begin no word is wrong with a text exactly if it was read without
errors. -/
theorem isLexical_iff {source : String} :
    (∀ d ∈ (ofText source).diagnostics, d.problem.isLexical = true) ↔
      (readProgram (tokens source)).2 = [] := by
  unfold ofText ofTokens
  dsimp only
  rw [List.forall_mem_append]
  constructor
  · rintro ⟨-, h⟩
    rw [List.forall_mem_map] at h
    refine List.eq_nil_iff_forall_not_mem.mpr fun rest hrest => ?_
    cases (isLexical_stopped _ rest).symm.trans (h rest hrest)
  · intro h
    rw [h]
    exact ⟨isLexical_of_mem_strays, by simp⟩

/-- Statements that the grammar derives of a text: they have its words. -/
structure Derived (source : String) (ss : List Statement) : Prop where
  nonempty : ss ≠ []
  proper : Statement.AllProper ss
  words : (tokens source).map Token.word = Statement.wordsOf ss

/-- A text that is read without errors is read as its statements. -/
theorem readProgram_of_isLexical {source : String}
    (h : ∀ d ∈ (ofText source).diagnostics, d.problem.isLexical = true) :
    readProgram (tokens source) = ((readStatements [] (tokens source)).statements, []) := by
  have hstops := isLexical_iff.mp h
  have hne : tokens source ≠ [] := by
    intro hnil
    rw [hnil, readProgram_nil] at hstops
    exact nomatch hstops
  have hread := readProgram_eq hne
  rw [hread] at hstops
  rw [hread]
  exact congrArg (Prod.mk _) hstops

/-- The statements that are read of a text without errors are read back from their words. -/
theorem settled_of_isLexical {source : String}
    (h : ∀ d ∈ (ofText source).diagnostics, d.problem.isLexical = true) :
    Statement.AllSettled (readStatements [] (tokens source)).statements ∧
      Statement.AllFull (readStatements [] (tokens source)).statements := by
  have hprogram := readProgram_of_isLexical h
  obtain ⟨hnonempty, hproper, hwords⟩ := proper_of_readProgram hprogram
  have hread := readProgram_of_proper hproper hnonempty hwords
  have hregrouped : (readStatements [] (tokens source)).statements = Statement.allRegrouped _ :=
    congrArg Prod.fst (hprogram.symm.trans hread)
  rw [hregrouped]
  exact Statement.AllProper.allRegrouped _ hproper

/-- The statements that are read of a text without errors are derived of it, and none of their blocks
is empty. -/
theorem derived_of_isLexical {source : String}
    (h : ∀ d ∈ (ofText source).diagnostics, d.problem.isLexical = true) :
    Derived source (readStatements [] (tokens source)).statements ∧
      Statement.AllFull (readStatements [] (tokens source)).statements := by
  obtain ⟨hnonempty, hproper, hwords⟩ := proper_of_readProgram (readProgram_of_isLexical h)
  exact ⟨⟨hnonempty, hproper, hwords⟩, (settled_of_isLexical h).2⟩

/-- Without names that are keywords of target code, the code for a text is a program. -/
theorem exists_module {source code : String} (hcode : (ofText source).code = some code)
    (hnames : ∀ t ∈ tokens source, t.kind = .name → t.lexeme ∉ reserved ∧ t.lexeme ∉ constants) :
    ∃ m, Code.Module.ofText code = .ok m := by
  obtain ⟨ss, o, rfl, hmeets, hread⟩ := exists_rendering hcode
  have hfree : ∀ w ∈ Statement.wordsOf (readStatements [] (tokens source)).statements,
      ¬IsBorrowed w := by
    rintro w hw ⟨hname, hmem⟩
    obtain ⟨t, ht, rfl⟩ := List.mem_map.mp (mem_words_of_readStatements w hw)
    have hk : t.kind = .name := hname
    have hlexeme : t.word.2 = t.lexeme := by simp [Token.word, hk]
    obtain ⟨hr, hc⟩ := hnames t ht hk
    rw [hlexeme] at hmem
    exact hmem.elim hr hc
  cases o with
  | none => exact absurd rfl (hmeets.accepted hfree)
  | some ss' => exact ⟨_, hread⟩

/-- What pseudocode becomes is a program where no name is a keyword of target code, whatever was
stepped over in reading it. Where one is a keyword and no value, and nothing was stepped over, it is
none. -/
theorem ofText_code_accepted (source : String) :
    (∀ code, (ofText source).code = some code →
      (∀ t ∈ tokens source, t.kind = .name → t.lexeme ∉ reserved ∧ t.lexeme ∉ constants) →
      ∃ m, Code.Module.ofText code = .ok m) ∧
    ((∀ d ∈ (ofText source).diagnostics, d.problem.isLexical = true) →
      (∃ t ∈ tokens source, t.kind = .name ∧ t.lexeme ∈ reserved) →
      ∃ code, (ofText source).code = some code ∧ ∃ e, Code.Module.ofText code = .error e) := by
  constructor
  · exact fun code hcode hnames => exists_module hcode hnames
  · rintro hclean ⟨t, ht, hk, hmem⟩
    obtain ⟨⟨hne, -, hwords⟩, -⟩ := derived_of_isLexical hclean
    have hcode := code_eq_some_iff.mpr ⟨hne, rfl⟩
    obtain ⟨ss, o, rfl, hmeets, hread⟩ := exists_rendering hcode
    have hreserved : IsReserved t.word := ⟨hk, by simpa [Token.word, hk] using hmem⟩
    have hnone := hmeets.rejected ⟨t.word, hwords ▸ List.mem_map_of_mem ht, hreserved⟩
    subst hnone
    exact ⟨_, hcode, hread⟩

/-- A loop whose body is not finished becomes a loop that does nothing. -/
theorem ofText_code_accepted_unfinished :
    (∃ m, Code.Module.ofText "for i in range(1,3):\n\tpass\nb = 1" = .ok m) ∧
      ∃ code, (ofText "elif <- 1").code = some code ∧ ∃ e, Code.Module.ofText code = .error e :=
  ⟨(ofText_code_accepted "for i in 1 to 3 do a <- endfor b <- 1").1 _ (by decide +kernel)
      (by decide +kernel),
    (ofText_code_accepted "elif <- 1").2 (by decide +kernel) (by decide +kernel)⟩

/-- Whatever statements are derived of a text, those that are read of it have their skeletons. -/
theorem skeletons_of_derived {source : String} {ss : List Statement} (h : Derived source ss) :
    Statement.skeletons (readStatements [] (tokens source)).statements =
      Statement.skeletons ss := by
  have hread := readProgram_of_proper h.proper h.nonempty h.words
  unfold readProgram at hread
  dsimp only at hread
  split at hread
  · exact absurd (congrArg Prod.snd hread) nofun
  · rw [(Prod.mk.inj hread).1]
    exact Statement.skeletons_allRegrouped ss

/-- What a text that is read without errors becomes is what target code reads for its statements. -/
theorem allRender_ofText_code {source code : String} {m : Code.Module}
    (hclean : ∀ d ∈ (ofText source).diagnostics, d.problem.isLexical = true)
    (hcode : (ofText source).code = some code) (hm : Code.Module.ofText code = .ok m) :
    Statement.AllRender (readStatements [] (tokens source)).statements m.body := by
  obtain ⟨-, hfull⟩ := derived_of_isLexical hclean
  obtain ⟨_, o, rfl, hmeets, hread⟩ := exists_rendering hcode
  cases o with
  | none =>
    obtain ⟨e, he⟩ := hread
    exact nomatch hm.symm.trans he
  | some ss' =>
    obtain rfl : m = ⟨ss'⟩ := by simpa using hm.symm.trans hread
    exact hmeets.holds ss' rfl hfull

/-- Of a text that is read without errors some statements are derived, and all that are have the
skeletons of the program that it becomes. -/
theorem skeletons_ofText_code {source code : String} {m : Code.Module}
    (hclean : ∀ d ∈ (ofText source).diagnostics, d.problem.isLexical = true)
    (hcode : (ofText source).code = some code) (hm : Code.Module.ofText code = .ok m) :
    (∃ ss, Derived source ss) ∧ ∀ ss, Derived source ss →
      Code.Statement.skeletons m.body = Statement.skeletons ss := by
  obtain ⟨hderived, -⟩ := derived_of_isLexical hclean
  refine ⟨⟨_, hderived⟩, fun ss hss => ?_⟩
  rw [(allRender_ofText_code hclean hcode hm).skeletons, skeletons_of_derived hss]

/-- A loop with its condition at the end is left from inside its body. -/
theorem skeletons_ofText_code_repeat :
    ∃ m, Code.Module.ofText "while True:\n\ta = 3\n\tif a < 100:\n\t\tbreak" = .ok m ∧
      ∃ ss, Derived "repeat a <- 3 until a < 100" ss ∧
        Code.Statement.skeletons m.body = Statement.skeletons ss := by
  have hclean : ∀ d ∈ (ofText "repeat a <- 3 until a < 100").diagnostics,
      d.problem.isLexical = true := by decide +kernel
  have hcode : (ofText "repeat a <- 3 until a < 100").code =
      some "while True:\n\ta = 3\n\tif a < 100:\n\t\tbreak" := by decide +kernel
  obtain ⟨m, hm⟩ := exists_module hcode (by decide +kernel)
  obtain ⟨⟨ss, hss⟩, hall⟩ := skeletons_ofText_code hclean hcode hm
  exact ⟨m, hm, ss, hss, hall ss hss⟩

end Rendition

end Growth.Pseudo
