import Growth.Proofs.Code.DenotesLines
import Growth.Proofs.Code.PrintedExpression

/-! The text of a program is read as that program. Conditions that are printed one after the other
are read as branches inside one another. -/

namespace Growth.Code

/-! ### Lines of text -/

theorem printedLine_toList (depth : Nat) (text : String) :
    (printedLine depth text).toList = indentation fourSpaces depth ++ text.toList ++ ['\n'] := by
  have hjoin : (String.join (List.replicate depth "    ")).toList = indentation fourSpaces depth := by
    induction depth with
    | zero => rfl
    | succ depth ih => simp [List.replicate_succ, String.join_cons, ih, indentation, fourSpaces]
  simp [printedLine, hjoin]

namespace Statement

theorem text_ne_nil (word : String) (depth : Nat) (s : Statement) :
    (text word depth s).toList ≠ [] := by
  cases s with
  | result value => cases value <;> simp [text, printedLine_toList]
  | _ => simp [text, printedLine_toList]

theorem bodyText_ne_nil (depth : Nat) (ss : List Statement) : (bodyText depth ss).toList ≠ [] := by
  cases ss with
  | nil => simp [bodyText, printedLine_toList]
  | cons s ss =>
    rw [bodyText, String.toList_append]
    exact List.append_ne_nil_of_left_ne_nil (text_ne_nil "if" depth s) _

end Statement

/-! ### Printable programs -/

/-- The parts of a target have a text. -/
def Target.Printable : Target → Prop
  | name n => Spells n.toList (.identifier n)
  | item object index => object.Printable ∧ index.Printable
  | field object n => object.Printable ∧ object.isInteger = false ∧ Spells n.toList (.identifier n)

namespace Statement

mutual

/-- The parts of a statement have a text: names are identifiers, and only the other body of a branch
may be empty. -/
def Printable : Statement → Prop
  | function n parameters body =>
    Spells n.toList (.identifier n) ∧ (∀ p ∈ parameters, Spells p.toList (.identifier p)) ∧
      body ≠ [] ∧ AllPrintable body
  | assign target value => target.Printable ∧ value.Printable
  | update target _ value => target.Printable ∧ value.Printable
  | whileLoop condition body => condition.Printable ∧ body ≠ [] ∧ AllPrintable body
  | forLoop n iterable body =>
    Spells n.toList (.identifier n) ∧ iterable.Printable ∧ body ≠ [] ∧ AllPrintable body
  | branch condition body other =>
    condition.Printable ∧ body ≠ [] ∧ AllPrintable body ∧ AllPrintable other
  | result none => True
  | result (some value) => value.Printable
  | breakLoop => True
  | continueLoop => True
  | pass => True
  | expression value => value.Printable

/-- All of the statements are printable. -/
def AllPrintable : List Statement → Prop
  | [] => True
  | s :: ss => s.Printable ∧ AllPrintable ss

end

theorem allPrintable_append {ss ss' : List Statement} (h : AllPrintable ss)
    (h' : AllPrintable ss') : AllPrintable (ss ++ ss') := by
  induction ss with
  | nil => exact h'
  | cons s ss ih => exact ⟨h.1, ih h.2⟩

end Statement

/-- The statements of a program are printable, and there are some. -/
structure Module.Printable (m : Module) : Prop where
  nonempty : m.body ≠ []
  body : Statement.AllPrintable m.body

/-! ### What texts are read as -/

theorem Target.denotes {t : Target} (h : t.Printable) : DenotesTarget t.text.toList (some t) := by
  cases t with
  | name n =>
    exact .of_expression h.opens ((Expression.readsBack (.name n) h).loosen (Nat.zero_le _))
  | item object index =>
    have hread := Expression.readsBack (.item object index) h
    have hopens := Expression.opens (.item object index) h
    exact .of_expression hopens (hread.loosen (Nat.zero_le _))
  | field object n =>
    have hread := Expression.readsBack (.field object n) h
    have hopens := Expression.opens (.field object n) h
    exact .of_expression hopens (hread.loosen (Nat.zero_le _))

namespace Statement

/-- The text of a statement is read as that statement; a branch behind either of its words. -/
def ReadsBack (depth : Nat) (s : Statement) : Prop :=
  match s with
  | branch condition body other =>
    ∃ cs, (∀ word, (text word depth (branch condition body other)).toList =
        indentation fourSpaces depth ++ (word.toList ++ cs)) ∧
      DenotesBranch fourSpaces depth cs (some (branch condition body other))
  | s => DenotesLines fourSpaces depth (text "if" depth s).toList (some [s])

theorem ReadsBack.lines {depth : Nat} {s : Statement} (h : s.ReadsBack depth) :
    DenotesLines fourSpaces depth (text "if" depth s).toList (some [s]) := by
  cases s with
  | branch condition body other =>
    obtain ⟨cs, htext, hread⟩ := h
    rw [htext "if"]
    exact .branch hread
  | _ => exact h

/-- The texts of statements are read as the statements. -/
theorem denotes_texts {depth : Nat} {ss : List Statement} (h : ∀ s ∈ ss, s.ReadsBack depth) :
    DenotesLines fourSpaces depth (texts "if" depth ss).toList (some ss) := by
  induction ss with
  | nil => exact .nil
  | cons s ss ih =>
    have hs := (h s (.head _)).lines
    have hss := ih fun t ht => h t (.tail _ ht)
    simpa [texts] using hs.append hss

theorem denotes_bodyText {depth : Nat} {ss : List Statement} (hne : ss ≠ [])
    (h : ∀ s ∈ ss, s.ReadsBack depth) :
    DenotesLines fourSpaces depth (bodyText depth ss).toList (some ss) := by
  cases ss with
  | nil => exact absurd rfl hne
  | cons s ss => exact denotes_texts h

namespace ReadsBack

variable {depth : Nat} {x : Expression} {b o : List Statement}

theorem denotes_expression (hx : x.Printable) :
    Denotes .tuple x.takesDot x.text.toList (some x) :=
  Denotes.loosen (x.readsBack hx) (Nat.zero_le _)

theorem denotesParameters {ps : List String} (h : ∀ p ∈ ps, Spells p.toList (.identifier p)) :
    DenotesParameters ((", ".intercalate ps).toList ++ [')']) (some ps) := by
  induction ps with
  | nil => exact .nil
  | cons p ps ih =>
    have hp := DenotesName.of_identifier (h p (.head _))
    cases ps with
    | nil => simpa using DenotesParameters.one hp
    | cons q qs =>
      have hps := ih fun r hr => h r (.tail _ hr)
      simpa [String.intercalate_cons_cons] using DenotesParameters.cons hp hps.blank

theorem function {n : String} (hn : Spells n.toList (.identifier n)) {ps : List String}
    (hps : ∀ p ∈ ps, Spells p.toList (.identifier p)) (hne : b ≠ [])
    (hb : ∀ s ∈ b, s.ReadsBack (depth + 1)) : (function n ps b).ReadsBack depth := by
  have hread := DenotesLines.function (.of_identifier hn) (.inl rfl) (denotesParameters hps)
    (denotes_bodyText hne hb) (bodyText_ne_nil _ _)
  simpa [ReadsBack, text, printedLine_toList] using hread

theorem assign {t : Target} (ht : t.Printable) (hx : x.Printable) :
    (assign t x).ReadsBack depth := by
  have hread : DenotesLines fourSpaces depth _ _ :=
    .assign (Target.denotes ht) (denotes_expression hx)
  simpa [ReadsBack, text, printedLine_toList] using hread

theorem update {t : Target} (ht : t.Printable) (op : Operator) (hx : x.Printable) :
    (update t op x).ReadsBack depth := by
  have hread : DenotesLines fourSpaces depth _ _ :=
    .update op (Target.denotes ht) (denotes_expression hx)
  simpa [ReadsBack, text, printedLine_toList] using hread

theorem whileLoop (hx : x.Printable) (hne : b ≠ []) (hb : ∀ s ∈ b, s.ReadsBack (depth + 1)) :
    (whileLoop x b).ReadsBack depth := by
  have hread := DenotesLines.whileLoop (x.denotes_or hx) (denotes_bodyText hne hb) (bodyText_ne_nil _ _)
  simpa [ReadsBack, text, printedLine_toList] using hread

theorem forLoop {n : String} (hn : Spells n.toList (.identifier n)) (hx : x.Printable)
    (hne : b ≠ []) (hb : ∀ s ∈ b, s.ReadsBack (depth + 1)) : (forLoop n x b).ReadsBack depth := by
  have hread := DenotesLines.forLoop (.of_identifier hn) (denotes_expression hx)
    (denotes_bodyText hne hb) (bodyText_ne_nil _ _)
  simpa [ReadsBack, text, printedLine_toList] using hread

theorem plain (hx : x.Printable) (hne : b ≠ []) (hb : ∀ s ∈ b, s.ReadsBack (depth + 1)) :
    (branch x b []).ReadsBack depth := by
  refine ⟨_, fun word => ?_, .plain (x.denotes_or hx) (denotes_bodyText hne hb)
    (bodyText_ne_nil _ _)⟩
  simp [text, isChain, printedLine_toList]

/-- A branch whose other body is one branch. -/
theorem chain (hx : x.Printable) (hne : b ≠ []) (hb : ∀ s ∈ b, s.ReadsBack (depth + 1))
    {y : Expression} {c d : List Statement} (h : (branch y c d).ReadsBack depth) :
    (branch x b [branch y c d]).ReadsBack depth := by
  obtain ⟨cs, htext, hread⟩ := h
  refine ⟨_, fun word => ?_, .chain (x.denotes_or hx) (denotes_bodyText hne hb)
    (bodyText_ne_nil _ _) hread⟩
  have helif := htext "elif"
  rw [text, isChain, if_pos rfl, texts, texts, String.toList_append, String.toList_append,
    String.toList_append, helif, printedLine_toList]
  simp

theorem choice (hx : x.Printable) (hne : b ≠ []) (hb : ∀ s ∈ b, s.ReadsBack (depth + 1))
    (hchain : isChain o = false) (hne' : o ≠ []) (ho : ∀ s ∈ o, s.ReadsBack (depth + 1)) :
    (branch x b o).ReadsBack depth := by
  refine ⟨_, fun word => ?_, .choice (x.denotes_or hx) (denotes_bodyText hne hb)
    (bodyText_ne_nil _ _) (denotes_bodyText hne' ho) (bodyText_ne_nil _ _)⟩
  simp [text, hchain, hne', printedLine_toList]

theorem branch (hx : x.Printable) (hne : b ≠ []) (hb : ∀ s ∈ b, s.ReadsBack (depth + 1))
    (ho : ∀ d, ∀ s ∈ o, s.ReadsBack d) : (branch x b o).ReadsBack depth := by
  cases hchain : isChain o with
  | false =>
    by_cases hne' : o = []
    · subst hne'
      exact plain hx hne hb
    · exact choice hx hne hb hchain hne' (ho (depth + 1))
  | true =>
    unfold isChain at hchain
    split at hchain
    · exact chain hx hne hb (ho depth _ (.head _))
    · cases hchain

theorem word (word : String) {w : Keyword} (hw : (word, w) ∈ Keyword.table) {s : Statement}
    (hr : ReadsSimple [.keyword w] (some s)) (htext : text "if" depth s = printedLine depth word) :
    DenotesLines fourSpaces depth (text "if" depth s).toList (some [s]) := by
  rw [htext, printedLine_toList]
  exact .word hw hr

theorem result (hx : x.Printable) : (result (some x)).ReadsBack depth := by
  have hread : DenotesLines fourSpaces depth _ _ := .result (denotes_expression hx)
  simpa [ReadsBack, text, printedLine_toList] using hread

theorem expression (hx : x.Printable) : (expression x).ReadsBack depth := by
  have hread : DenotesLines fourSpaces depth _ _ :=
    .expression (x.opens hx) (denotes_expression hx)
  simpa [ReadsBack, text, printedLine_toList] using hread

end ReadsBack

mutual

/-- The text of a printable statement is read as that statement. -/
theorem readsBack : (s : Statement) → s.Printable → ∀ depth, s.ReadsBack depth
  | function _ _ b, ⟨hn, hps, hne, hb⟩, depth =>
    .function hn hps hne fun s hs => allReadBack b hb s hs (depth + 1)
  | assign _ _, ⟨ht, hx⟩, _ => .assign ht hx
  | update _ op _, ⟨ht, hx⟩, _ => .update ht op hx
  | whileLoop _ b, ⟨hx, hne, hb⟩, depth =>
    .whileLoop hx hne fun s hs => allReadBack b hb s hs (depth + 1)
  | forLoop _ _ b, ⟨hn, hx, hne, hb⟩, depth =>
    .forLoop hn hx hne fun s hs => allReadBack b hb s hs (depth + 1)
  | branch _ b o, ⟨hx, hne, hb, ho⟩, depth =>
    .branch hx hne (fun s hs => allReadBack b hb s hs (depth + 1)) fun d s hs =>
      allReadBack o ho s hs d
  | result none, _, _ => ReadsBack.word "return" (by decide) .noResult rfl
  | result (some _), hx, _ => .result hx
  | breakLoop, _, _ => ReadsBack.word "break" (by decide) .breakLoop rfl
  | continueLoop, _, _ => ReadsBack.word "continue" (by decide) .continueLoop rfl
  | pass, _, _ => ReadsBack.word "pass" (by decide) .pass rfl
  | expression _, hx, _ => .expression hx

theorem allReadBack : (ss : List Statement) → AllPrintable ss → ∀ s ∈ ss, ∀ depth, s.ReadsBack depth
  | [], _ => nofun
  | s :: ss, h => List.forall_mem_cons.mpr ⟨readsBack s h.1, allReadBack ss h.2⟩

end

end Statement

/-- Printing a program and reading the text gives the program. -/
theorem Module.ofText_text {m : Module} (h : m.Printable) : ofText m.text = .ok m := by
  have hread := Statement.denotes_bodyText h.nonempty
    fun s hs => Statement.allReadBack m.body h.body s hs 0
  exact hread.ofText indents_fourSpaces (Statement.bodyText_ne_nil 0 m.body) (.inl rfl)

/-- A function with two conditions in a chain and no other body, and a call of it. -/
def Module.chained : Module :=
  ⟨[.function "f" ["x", "y"]
      [.branch (.compare (.name "x") [(.relation .lt, .float (.number false 1))])
        [.result (some (.unary .minus (.binary (.name "x") .power (.unary .minus (.integer "2")))))]
        [.branch (.joined (.name "y") .or (.tuple [.string "it\\'s"]))
          [.whileLoop (.boolean true) [.breakLoop]] []]],
    .assign (.item (.name "y") (.integer "0")) (.call (.name "f") [.integer "1", .set [.none]])]⟩

theorem Module.ofText_text_chained :
    Module.chained.Printable ∧ ofText Module.chained.text = .ok Module.chained := by
  have hf : Spells ['f'] (.identifier "f") := ⟨_, _, rfl, rfl⟩
  have hx : Spells ['x'] (.identifier "x") := ⟨_, _, rfl, rfl⟩
  have hy : Spells ['y'] (.identifier "y") := ⟨_, _, rfl, rfl⟩
  have h0 : Spells ['0'] (.integer "0") := ⟨_, _, rfl, rfl⟩
  have h1 : Spells ['1'] (.integer "1") := ⟨_, _, rfl, rfl⟩
  have h2 : Spells ['2'] (.integer "2") := ⟨_, _, rfl, rfl⟩
  have hfloat : PrintableFloat (.number false 1) := ⟨1, rfl, by decide⟩
  have hstring : Quotable (chosenQuote "it\\'s") ['i', 't', '\\', '\'', 's'] := by
    have hcontent : "it\\'s".toList = ['i', 't', '\\', '\'', 's'] := rfl
    have hquote : chosenQuote "it\\'s" = '"' := by
      simp [chosenQuote, hcontent]
    rw [hquote]
    exact .plain (by decide) (by decide) (by decide) (.plain (by decide) (by decide) (by decide)
      (.escaped (by decide) (.plain (by decide) (by decide) (by decide) .nil)))
  have hprintable : Module.chained.Printable := by
    refine ⟨List.cons_ne_nil _ _, ?_⟩
    simp [chained, Statement.AllPrintable, Statement.Printable, Expression.Printable,
      Expression.AllPrintable, Expression.ComparedPrintable, Target.Printable, hf, hx, hy, h0, h1, h2,
      hfloat, hstring]
  exact ⟨hprintable, Module.ofText_text hprintable⟩

end Growth.Code
