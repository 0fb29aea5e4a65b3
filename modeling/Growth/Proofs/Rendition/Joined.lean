import Growth.Proofs.Pseudo.AgreeStatement
import Growth.Proofs.Pseudo.Pieces
import Growth.Proofs.Rendition.Program

/-! What two texts become, one behind the other. Where the first is read without errors and the second
begins with a statement, each is read as if it stood alone, the second further down. -/

namespace Growth.Pseudo

/-! ### Reading further down -/

theorem alike_lowered (n : Nat) (ts : List Token) :
    Alike (fun t t' => t' = t.lowered n) ts (ts.map (Token.lowered n)) := by
  induction ts with
  | nil => exact .nil
  | cons t ts ih => exact .cons rfl (fun _ => rfl) ih

theorem Alike.eq_lowered {n : Nat} {ts ts' : List Token}
    (h : Alike (fun t t' => t' = t.lowered n) ts ts') : ts' = ts.map (Token.lowered n) := by
  induction h with
  | nil => rfl
  | cons ht hlexeme h ih => rw [List.map_cons, ht, ih]

/-- Statements and errors do not depend on where the text stands. -/
theorem readStatements_lowered (awaited : List Kind) (n : Nat) (ts : List Token) :
    (readStatements awaited (ts.map (Token.lowered n))).statements =
        (readStatements awaited ts).statements ∧
      (readStatements awaited (ts.map (Token.lowered n))).stops =
        (readStatements awaited ts).stops.map (List.map (Token.lowered n)) := by
  have hagrees := readStatements_agrees awaited (alike_lowered n ts)
  have hstops := hagrees.stops
  generalize (readStatements awaited ts).stops = stops at hstops
  generalize (readStatements awaited (ts.map (Token.lowered n))).stops = stops' at hstops
  refine ⟨hagrees.statements.symm, ?_⟩
  induction hstops with
  | nil => rfl
  | cons hstop _ ih => rw [List.map_cons, ← ih, hstop.eq_lowered]

/-- Behind statements that are read back from their words, a text is read as it is alone, further
down. -/
theorem readStatements_append_lowered {ss : List Statement} (hss : Statement.AllSettled ss)
    (hfull : Statement.AllFull ss) {ts ts' : List Token}
    (hts : ts.map Token.word = Statement.wordsOf ss) (hstarts : startsStatement ts' = true)
    (n : Nat) :
    (readStatements [] (ts ++ ts'.map (Token.lowered n))).statements =
        ss ++ (readStatements [] ts').statements ∧
      (readStatements [] (ts ++ ts'.map (Token.lowered n))).stops =
        (readStatements [] ts').stops.map (List.map (Token.lowered n)) := by
  have hstarts' := startsStatement_agrees (alike_lowered n ts')
  have hfresh : Fresh (ts'.map (Token.lowered n)) := fun _ _ => .inr (hstarts'.symm.trans hstarts)
  have hbehind : (readStatements [] (ts ++ ts'.map (Token.lowered n))).Extends ss _ :=
    Statement.AllSettled.extends (List.forall_mem_nil _) hfresh hss hfull hts
  obtain ⟨hstatements, hstops⟩ := readStatements_lowered [] n ts'
  exact ⟨by rw [hbehind.statements, hstatements], by rw [hbehind.stops, hstops]⟩

/-! ### The code of statements -/

theorem Statement.linesOf_append (ss ss' : List Statement) :
    Statement.linesOf (ss ++ ss') = Statement.linesOf ss ++ Statement.linesOf ss' := by
  induction ss with
  | nil => rfl
  | cons s ss ih =>
    rw [List.cons_append, Statement.linesOf, Statement.linesOf, ih, List.append_assoc]

/-- Statements that can be read are laid out. -/
theorem Statement.exists_lays {ss : List Statement} (hne : ss ≠ [])
    (hg : Statement.AllGrouped ss) (hs : Statement.AllSpelled ss) :
    ∃ cs, Lays 0 (Statement.linesOf ss) cs := by
  obtain ⟨cs, -, hlays, -⟩ := Statement.body_translates 0 ss hg hs
  rw [Line.body_of_ne_nil (Statement.linesOf_ne_nil hne)] at hlays
  exact ⟨cs, hlays⟩

/-- So can those that are read of a text. -/
theorem exists_lays_of_tokens {source : String}
    (hne : (readStatements [] (tokens source)).statements ≠ []) :
    ∃ cs, Lays 0 (Statement.linesOf (readStatements [] (tokens source)).statements) cs :=
  Statement.exists_lays hne (readStatements_made [] (tokens source)).grouped
    fun w hw => spelled_of_tokens w (Rendition.mem_words_of_readStatements w hw)

/-- The code of statements in two parts is the code of the parts with a line end between them. -/
theorem Lays.resolved_append {ls ls' : List Line} {cs cs' : List Char} (h : Lays 0 ls cs)
    (h' : Lays 0 ls' cs') :
    Layout.resolved (String.join ((ls ++ ls').map Line.text)) =
      Layout.resolved (String.join (ls.map Line.text)) ++ "\n" ++
        Layout.resolved (String.join (ls'.map Line.text)) := by
  have hboth := (h.append h').resolved
  rw [← h.resolved, ← h'.resolved, ← List.append_assoc] at hboth
  refine String.toList_inj.mp ((List.append_cancel_right hboth).trans ?_)
  rw [String.toList_append, String.toList_append]
  rfl

namespace Rendition

/-! ### Problems -/

/-- The problems with the words themselves. -/
def lexical (t : Rendition) : List Diagnostic :=
  t.diagnostics.filter (·.problem.isLexical)

/-- The problems with the order of the words. -/
def syntactic (t : Rendition) : List Diagnostic :=
  t.diagnostics.filter (!·.problem.isLexical)

theorem lexical_ofText (source : String) : (ofText source).lexical = strays source := by
  unfold lexical ofText ofTokens
  dsimp only
  rw [List.filter_append, List.filter_eq_self.mpr isLexical_of_mem_strays,
    List.filter_eq_nil_iff.mpr, List.append_nil]
  rw [List.forall_mem_map]
  intro rest _
  simp [isLexical_stopped]

theorem syntactic_ofText (source : String) : (ofText source).syntactic =
    (readProgram (tokens source)).2.map (stopped (tokens source)) := by
  unfold syntactic ofText ofTokens
  dsimp only
  rw [List.filter_append, List.filter_eq_nil_iff.mpr, List.nil_append, List.filter_eq_self.mpr]
  · rw [List.forall_mem_map]
    intro rest _
    simp [isLexical_stopped]
  · intro d hd
    simp [isLexical_of_mem_strays d hd]

theorem diagnostics_eq (source : String) :
    (ofText source).diagnostics = (ofText source).lexical ++ (ofText source).syntactic := by
  rw [lexical_ofText, syntactic_ofText]
  rfl

/-- The end of a text is where its last part ends. -/
theorem stopped_lowered (n : Nat) (ts : List Token) {ts' : List Token} (hne : ts' ≠ [])
    (rest : List Token) :
    stopped (ts ++ ts'.map (Token.lowered n)) (rest.map (Token.lowered n)) =
      (stopped ts' rest).lowered n := by
  cases rest with
  | nil =>
    simp [stopped, Diagnostic.lowered, List.getLast?_append, List.getLast?_eq_some_getLast hne,
      Token.lowered]
  | cons t rest => rfl

/-! ### Two texts -/

section Newline

variable {a b : String} {n : Nat}

/-- A text that begins with a statement begins with a word that is no number. -/
theorem head?_kind_of_startsStatement {ts : List Token} (h : startsStatement ts = true) :
    ts.head?.map Token.kind ≠ some .number := by
  cases ts with
  | nil => nofun
  | cons t ts =>
    have hfresh := isFresh_of_startsStatement h
    intro hk
    rw [Option.some.inj hk] at hfresh
    exact nomatch hfresh

/-- The statements of a text stand behind those of the text before it, and its errors are as they
were. -/
theorem readStatements_newline (hn : n = a.toList.count '\n' + 1)
    (ha : ∀ d ∈ (ofText a).diagnostics, d.problem.isLexical = true)
    (hb : startsStatement (tokens b) = true) :
    (readStatements [] (tokens (a ++ "\n" ++ b))).statements =
        (readStatements [] (tokens a)).statements ++ (readStatements [] (tokens b)).statements ∧
      (readStatements [] (tokens (a ++ "\n" ++ b))).stops =
        (readStatements [] (tokens b)).stops.map (List.map (Token.lowered n)) := by
  obtain ⟨hderived, hfull⟩ := derived_of_isLexical ha
  rw [tokens_newline hn (head?_kind_of_startsStatement hb)]
  exact readStatements_append_lowered (settled_of_isLexical ha).1 hfull hderived.words hb n

/-- The code of a text stands behind that of the text before it. -/
theorem code_newline {code : String}
    (ha : ∀ d ∈ (ofText a).diagnostics, d.problem.isLexical = true)
    (hb : startsStatement (tokens b) = true) (hcode : (ofText a).code = some code) :
    (ofText (a ++ "\n" ++ b)).code = some (match (ofText b).code with
      | some more => code ++ "\n" ++ more
      | none => code) := by
  obtain ⟨hstatements, -⟩ := readStatements_newline rfl ha hb
  obtain ⟨hne, rfl⟩ := code_eq_some_iff.mp hcode
  refine code_eq_some_iff.mpr ⟨by simp [hstatements, hne], ?_⟩
  rw [hstatements, Statement.linesOf_append]
  cases hmore : (ofText b).code with
  | none =>
    have hnil : (readStatements [] (tokens b)).statements = [] :=
      of_not_not fun hne' => nomatch hmore.symm.trans (code_eq_some_iff.mpr ⟨hne', rfl⟩)
    rw [hnil, Statement.linesOf, List.append_nil]
  | some more =>
    obtain ⟨hne', rfl⟩ := code_eq_some_iff.mp hmore
    obtain ⟨cs, hlays⟩ := exists_lays_of_tokens hne
    obtain ⟨cs', hlays'⟩ := exists_lays_of_tokens hne'
    exact (hlays.resolved_append hlays').symm

/-- The errors of a text stand below the text before it. -/
theorem syntactic_newline (hn : n = a.toList.count '\n' + 1)
    (ha : ∀ d ∈ (ofText a).diagnostics, d.problem.isLexical = true)
    (hb : startsStatement (tokens b) = true) :
    (ofText (a ++ "\n" ++ b)).syntactic =
      (ofText b).syntactic.map (Diagnostic.lowered n) := by
  have hne : tokens b ≠ [] := by
    intro hnil
    rw [hnil] at hb
    exact nomatch hb
  obtain ⟨-, hstops⟩ := readStatements_newline hn ha hb
  have htokens := tokens_newline hn (head?_kind_of_startsStatement hb)
  have hne' : tokens (a ++ "\n" ++ b) ≠ [] := by simp [htokens, hne]
  rw [syntactic_ofText, syntactic_ofText, readProgram_eq hne, readProgram_eq hne']
  dsimp only
  rw [hstops, htokens, List.map_map, List.map_map]
  exact List.map_congr_left fun rest _ => stopped_lowered n (tokens a) hne rest

end Newline

/-- A text behind one that was read without errors, and that begins with a statement, adds its code
and its problems to those of the other. -/
theorem ofText_newline {a b : String}
    (ha : ∀ d ∈ (ofText a).diagnostics, d.problem.isLexical = true)
    (hb : startsStatement (tokens b) = true) :
    ∃ code, (ofText a).code = some code ∧
      (ofText (a ++ "\n" ++ b)).code = some (match (ofText b).code with
        | some more => code ++ "\n" ++ more
        | none => code) ∧
      (ofText (a ++ "\n" ++ b)).diagnostics = (ofText a).lexical ++
        ((ofText b).lexical ++ (ofText b).syntactic).map
          (Diagnostic.lowered (a.toList.count '\n' + 1)) := by
  obtain ⟨⟨hne, -, -⟩, -⟩ := derived_of_isLexical ha
  have hcode := code_eq_some_iff.mpr ⟨hne, rfl⟩
  refine ⟨_, hcode, code_newline ha hb hcode, ?_⟩
  rw [diagnostics_eq, syntactic_newline rfl ha hb, lexical_ofText, lexical_ofText, lexical_ofText,
    strays_newline rfl (head?_kind_of_startsStatement hb), List.append_assoc, List.map_append]

/-- The first text ends in a result that has no value, and the second has an error. -/
theorem ofText_newline_unfinished :
    (ofText ("x <- 1 $\nreturn" ++ "\n" ++ "y[0] <- <- 2 #\nreturn y")).code =
        some "x = 1\nreturn\nreturn y" ∧
      (ofText ("x <- 1 $\nreturn" ++ "\n" ++ "y[0] <- <- 2 #\nreturn y")).diagnostics =
        [⟨.illegal '$', ⟨1, 7⟩⟩, ⟨.illegal '#', ⟨3, 13⟩⟩, ⟨.unexpected "<-", ⟨3, 8⟩⟩] := by
  obtain ⟨code, hcode, hjoined, hdiagnostics⟩ :=
    ofText_newline (a := "x <- 1 $\nreturn") (b := "y[0] <- <- 2 #\nreturn y")
      (by decide +kernel) (by decide +kernel)
  have hfirst : (ofText "x <- 1 $\nreturn").code = some "x = 1\nreturn" := by decide +kernel
  have hsecond : (ofText "y[0] <- <- 2 #\nreturn y").code = some "return y" := by decide +kernel
  rw [hfirst] at hcode
  rw [hsecond, ← Option.some.inj hcode] at hjoined
  exact ⟨hjoined, hdiagnostics.trans (by decide +kernel)⟩

end Rendition

end Growth.Pseudo
