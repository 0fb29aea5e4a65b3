import Growth.Code.Recording
import Growth.Proofs.Code.Paragraphs
import Growth.Proofs.Code.PrintedStatement

/-! A program that records is the definition of the routine and then the program itself with its calls
in it, also when its text is read. -/

namespace Growth.Code

theorem Quotable.of_plain {quote : Char} {cs : List Char}
    (h : ∀ c ∈ cs, c ≠ '\n' ∧ c ≠ quote ∧ c ≠ '\\') : Quotable quote cs := by
  induction cs with
  | nil => exact .nil
  | cons c cs ih =>
    obtain ⟨⟨hn, hq, hb⟩, hcs⟩ := List.forall_mem_cons.mp h
    exact .plain hn hq hb (ih hcs)

/-- An identifier can stand between quotes. -/
theorem Spells.quotable {n : String} (h : Spells n.toList (.identifier n)) {quote : Char}
    (hquote : quote = '\'' ∨ quote = '"') : Quotable quote n.toList := by
  obtain ⟨c, more, hn, hlexeme⟩ := h
  have hcontinues : ∀ d ∈ n.toList, continuesName d = true := by
    rcases lexeme_cases hlexeme with ⟨_, -, -, hk, -⟩ | ⟨hs, hchars, -⟩ | ⟨-, -, f, -, hk⟩
    · cases hk
    · rw [hchars]
      refine List.forall_mem_cons.mpr ⟨?_, fun d hd => List.mem_takeWhile_imp hd⟩
      simp only [startsName, Bool.or_eq_true] at hs
      simpa [continuesName, Text.isLetterOrNumber] using hs.imp_left fun h => .inl (.inl h)
    · rcases numberKind?_cases hk with ⟨v, hv, -⟩ | ⟨l, hl, -⟩
      · cases hv
      · cases hl
  have hplain : ∀ d, continuesName d = true → d ≠ '\n' ∧ d ≠ quote ∧ d ≠ '\\' := by
    intro d hd
    refine ⟨?_, ?_, ?_⟩
    · rintro rfl
      exact absurd hd (by decide)
    · rintro rfl
      rcases hquote with rfl | rfl <;> exact absurd hd (by decide)
    · rintro rfl
      exact absurd hd (by decide)
  exact .of_plain fun d hd => hplain d (hcontinues d hd)

theorem chosenQuote_cases (content : String) :
    chosenQuote content = '\'' ∨ chosenQuote content = '"' := by
  unfold chosenQuote
  split
  · exact .inr rfl
  · exact .inl rfl

theorem chosenQuote_of_not_mem {content : String} (h : '\'' ∉ content.toList) :
    chosenQuote content = '\'' := by
  simp [chosenQuote, h]

theorem quotedContent_of_not_mem {content : String} (h : '\'' ∉ content.toList) :
    quotedContent content = "'" ++ content ++ "'" := by
  simp [quotedContent, h]

namespace Recording

/-! ### Recording keeps programs printable -/

theorem spells_routine : Spells routine.toList (.identifier routine) :=
  ⟨_, _, rfl, rfl⟩

theorem printable_call {n : String} (h : Spells n.toList (.identifier n)) : (call n).Printable := by
  have hquotable := h.quotable (chosenQuote_cases n)
  exact ⟨spells_routine, hquotable, h, trivial⟩

/-- The calls after a statement are printable if the statement is. -/
theorem printable_calls {s : Statement} (h : s.Printable) :
    Statement.AllPrintable (s.assigned?.toList.map call) := by
  cases hassigned : s.assigned? with
  | none => trivial
  | some n =>
    unfold Statement.assigned? at hassigned
    split at hassigned
    · cases hassigned
      exact ⟨printable_call h.1, trivial⟩
    · exact nomatch hassigned

theorem block_ne_nil (has : Bool) {ss : List Statement} (h : ss ≠ []) : block has ss ≠ [] := by
  cases ss with
  | nil => exact absurd rfl h
  | cons s ss =>
    rw [block]
    exact List.cons_ne_nil _ _

mutual

theorem printable_statement : (s : Statement) → s.Printable → (statement s).Printable
  | .function _ _ body, ⟨hn, hps, hne, hb⟩ =>
    ⟨hn, hps, block_ne_nil _ hne, printable_block _ body hb⟩
  | .whileLoop _ body, ⟨hx, hne, hb⟩ => ⟨hx, block_ne_nil _ hne, printable_block _ body hb⟩
  | .forLoop _ _ body, ⟨hn, hx, hne, hb⟩ =>
    ⟨hn, hx, block_ne_nil _ hne, printable_block _ body hb⟩
  | .branch _ body other, ⟨hx, hne, hb, ho⟩ =>
    ⟨hx, block_ne_nil _ hne, printable_block _ body hb, printable_block _ other ho⟩
  | .assign _ _, h => h
  | .update _ _ _, h => h
  | .result _, h => h
  | .breakLoop, h => h
  | .continueLoop, h => h
  | .pass, h => h
  | .expression _, h => h

/-- A block that records is printable if the block is. -/
theorem printable_block (has : Bool) :
    (ss : List Statement) → Statement.AllPrintable ss → Statement.AllPrintable (block has ss)
  | [], _ => trivial
  | s :: ss, ⟨hs, hss⟩ => by
    rw [block]
    refine ⟨printable_statement s hs, ?_⟩
    cases has with
    | true => exact printable_block true ss hss
    | false => exact Statement.allPrintable_append (printable_calls hs) (printable_block false ss hss)

end

theorem printable_recorded {m : Module} (h : m.Printable) : (recorded m).Printable :=
  ⟨block_ne_nil _ h.nonempty, printable_block _ _ h.body⟩

/-! ### The definition of the routine -/

/-- The name of the values that variables have had. -/
def history : String := "_algoscope_history"

/-- The values that variables have had: none. -/
def noHistory : Statement :=
  .assign (.name history) (.dict [])

/-- The routine, which leaves a mark when a value has been there before. -/
def routineDefinition : Statement :=
  .function routine ["name", "value"]
    [.assign (.name "seen") (.call (.field (.name history) "setdefault") [.name "name", .list []]),
      .forLoop "earlier" (.name "seen")
        [.branch (.compare (.name "earlier") [(.relation .eq, .name "value")])
          [.assign (.name "handle") (.call (.name "open") [.string flag, .string "w"]),
            .expression (.call (.field (.name "handle") "write") [.string "1"]),
            .expression (.call (.field (.name "handle") "close") []),
            .result none] []],
      .expression (.call (.field (.name "seen") "append") [.name "value"])]

/-- The statements with which a program that records begins. -/
def prelude : List Statement :=
  [noHistory, routineDefinition]

/-- The definition is the text of these statements, with blank lines after each of them. -/
theorem definition_eq :
    definition = noHistory.text "if" 0 ++ "\n\n" ++ (routineDefinition.text "if" 0 ++ "\n\n") := by
  have hflag : quotedContent flag = "'repeat.flag'" := quotedContent_of_not_mem (by decide)
  have hmode : quotedContent "w" = "'w'" := quotedContent_of_not_mem (by decide)
  have hmark : quotedContent "1" = "'1'" := quotedContent_of_not_mem (by decide)
  simp only [noHistory, routineDefinition, Statement.text, Statement.bodyText, Statement.texts,
    Expression.text, Expression.itemTexts, hflag, hmode, hmark]
  decide +kernel

theorem printable_prelude : Statement.AllPrintable prelude := by
  have hhistory : Spells history.toList (.identifier history) := ⟨_, _, rfl, rfl⟩
  have hname : Spells "name".toList (.identifier "name") := ⟨_, _, rfl, rfl⟩
  have hvalue : Spells "value".toList (.identifier "value") := ⟨_, _, rfl, rfl⟩
  have hseen : Spells "seen".toList (.identifier "seen") := ⟨_, _, rfl, rfl⟩
  have hearlier : Spells "earlier".toList (.identifier "earlier") := ⟨_, _, rfl, rfl⟩
  have hhandle : Spells "handle".toList (.identifier "handle") := ⟨_, _, rfl, rfl⟩
  have hopen : Spells "open".toList (.identifier "open") := ⟨_, _, rfl, rfl⟩
  have hwrite : Spells "write".toList (.identifier "write") := ⟨_, _, rfl, rfl⟩
  have hclose : Spells "close".toList (.identifier "close") := ⟨_, _, rfl, rfl⟩
  have happend : Spells "append".toList (.identifier "append") := ⟨_, _, rfl, rfl⟩
  have hsetdefault : Spells "setdefault".toList (.identifier "setdefault") := ⟨_, _, rfl, rfl⟩
  have hstring (content : String)
      (h : (content.toList.all fun c => c != '\n' && c != '\'' && c != '\\') = true) :
      Quotable (chosenQuote content) content.toList := by
    replace h : ∀ c ∈ content.toList, c ≠ '\n' ∧ c ≠ '\'' ∧ c ≠ '\\' := by
      simpa [and_assoc] using h
    rw [chosenQuote_of_not_mem fun hq => (h _ hq).2.1 rfl]
    exact .of_plain h
  have hflag := hstring flag (by decide)
  have hmode := hstring "w" (by decide)
  have hmark := hstring "1" (by decide)
  simp only [prelude, noHistory, routineDefinition, Statement.AllPrintable, Statement.Printable,
    Target.Printable, Expression.Printable, Expression.AllPrintable, Expression.EntriesPrintable,
    Expression.ComparedPrintable, Expression.isInteger, List.forall_mem_cons, spells_routine, hhistory,
    hname, hvalue, hseen, hearlier, hhandle, hopen, hwrite, hclose, happend, hsetdefault, hflag, hmode,
    hmark, ne_eq, reduceCtorEq, not_false_eq_true, List.not_mem_nil, false_implies, implies_true,
    and_self]

theorem denotes_definition : DenotesText fourSpaces definition.toList (some prelude) := by
  have hread (s : Statement) (hs : s.Printable) :
      DenotesText fourSpaces (s.text "if" 0 ++ "\n\n").toList (some [s]) := by
    have hlines := (s.readsBack hs 0).lines
    rw [String.toList_append]
    exact .of_lines hlines (s.text_ne_nil "if" 0) 2
  obtain ⟨hhistory, hroutine, -⟩ := printable_prelude
  rw [definition_eq, String.toList_append]
  exact (hread _ hhistory).append (hread _ hroutine)

/-- A program that records is read as the definition of the routine before the recorded program. -/
theorem ofText_program {m : Module} (h : m.Printable) :
    Module.ofText definition = .ok ⟨prelude⟩ ∧
      Module.ofText (program m) = .ok ⟨prelude ++ (recorded m).body⟩ := by
  have hprintable := printable_recorded h
  have hlines := Statement.denotes_bodyText hprintable.nonempty
    fun s hs => Statement.allReadBack _ hprintable.body s hs 0
  have hbody := DenotesText.of_lines hlines (Statement.bodyText_ne_nil 0 _) 0
  refine ⟨denotes_definition.ofText indents_fourSpaces rfl, ?_⟩
  refine (denotes_definition.append hbody).ofText indents_fourSpaces ?_
  simp [program, Module.text, blankLines]

/-- A loop that counts up to a bound. -/
def counting : Module :=
  ⟨[.assign (.name "i") (.integer "0"),
    .whileLoop (.compare (.name "i") [(.relation .lt, .integer "9")])
      [.assign (.name "i") (.binary (.name "i") .plus (.integer "1"))]]⟩

/-- Both assignments of the loop are recorded. -/
theorem ofText_program_counting : counting.Printable ∧
    Module.ofText definition = .ok ⟨prelude⟩ ∧
    Module.ofText (program counting) = .ok ⟨prelude ++
      [.assign (.name "i") (.integer "0"), call "i",
        .whileLoop (.compare (.name "i") [(.relation .lt, .integer "9")])
          [.assign (.name "i") (.binary (.name "i") .plus (.integer "1")), call "i"]]⟩ := by
  have hi : Spells "i".toList (.identifier "i") := ⟨_, _, rfl, rfl⟩
  have h0 : Spells "0".toList (.integer "0") := ⟨_, _, rfl, rfl⟩
  have h1 : Spells "1".toList (.integer "1") := ⟨_, _, rfl, rfl⟩
  have h9 : Spells "9".toList (.integer "9") := ⟨_, _, rfl, rfl⟩
  have hprintable : counting.Printable :=
    ⟨List.cons_ne_nil _ _, ⟨hi, h0⟩, ⟨⟨hi, by simp, h9, trivial⟩, by simp, ⟨hi, hi, h1⟩, trivial⟩,
      trivial⟩
  exact ⟨hprintable, ofText_program hprintable⟩

end Recording

end Growth.Code
