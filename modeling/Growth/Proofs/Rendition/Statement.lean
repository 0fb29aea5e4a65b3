import Growth.Proofs.Rendition.Header
import Growth.Proofs.Rendition.Renders

/-! Statements in target code. Their lines are laid out as a text that is read as what target code
reads for the statements, or not at all where a keyword of target code is among the names. -/

namespace Growth.Pseudo

open Code (Denotes DenotesBranch DenotesLines Expression indentation)

/-- Inside `depth` blocks the lines are laid out as a text that is read as statements with the
property `P`, or is not read at all. -/
def Translates (depth : Nat) (ls : List Line) (ws : List Word) (P : List Code.Statement → Prop) :
    Prop :=
  ∃ cs o, Lays depth ls cs ∧ DenotesLines ['\t'] depth cs o ∧ Meets ws P o

section Lines

variable {depth : Nat} {ls ls' : List Line} {ws ws' : List Word}
  {P P' Q : List Code.Statement → Prop}

theorem Translates.append (h : Translates depth ls ws P) (h' : Translates depth ls' ws' P')
    (hQ : ∀ b b', P b → P' b' → Q (b ++ b')) : Translates depth (ls ++ ls') (ws ++ ws') Q := by
  obtain ⟨cs, o, hlays, hread, hmeets⟩ := h
  obtain ⟨cs', o', hlays', hread', hmeets'⟩ := h'
  exact ⟨_, _, hlays.append hlays', hread.append hread',
    hmeets.bind fun b hb => hmeets'.map fun b' hb' => hQ b b' hb hb'⟩

/-- Words of pseudocode itself do not count. -/
theorem Translates.of_words (h : Translates depth ls ws P)
    (hws : ∀ p : Word → Prop, (∀ k : Kind, ¬p k.word) → ((∃ w ∈ ws', p w) ↔ ∃ w ∈ ws, p w)) :
    Translates depth ls ws' P := by
  obtain ⟨cs, o, hlays, hread, hmeets⟩ := h
  exact ⟨cs, o, hlays, hread, hmeets.of_words hws⟩

theorem Translates.imp (h : Translates depth ls ws P) (hQ : ∀ b, P b → Q b) :
    Translates depth ls ws Q := by
  obtain ⟨cs, o, hlays, hread, hmeets⟩ := h
  exact ⟨cs, o, hlays, hread, hmeets.accepted, hmeets.rejected, fun b hb => hQ b (hmeets.holds b hb)⟩

/-- A line that does nothing stands for an empty body. -/
theorem translates_pass (depth : Nat) : Translates depth [.code "pass"] [] (· = [.pass]) := by
  have hline : SettlesLine "pass" "pass".toList :=
    .of_word (by decide) (by decide)
  exact ⟨_, _, .line hline depth, .word (by decide) .pass, .some rfl⟩

end Lines

/-! ### Statements without bodies -/

theorem translates_assign {depth : Nat} {target : Target} {value : Calc} (hg : value.Grouped)
    (ht : target.IsSpelled) (hv : value.IsSpelled) :
    Translates depth (Statement.assign target value).lines (Statement.assign target value).words
      (Statement.AllRender [.assign target value]) := by
  have hread := DenotesWords.of_calc hg hv
  have htext : (s!"{target.text} = {value.text}").toList =
      target.text.toList ++ ' ' :: '=' :: ' ' :: value.text.toList := by
    simp [toString]
  have hsign : Tidy ['='] := .single (by decide) (by decide)
  have htidy := (Target.tidy ht).spaced (hsign.spaced (Calc.tidy value hv))
  have hline : SettlesLine s!"{target.text} = {value.text}" _ :=
    .of_tidy (htext ▸ htidy) ⟨'=', by rw [htext]; simp, by decide⟩
  rw [htext] at hline
  refine ⟨_, _, .line hline depth, Target.denotes_assign ht (hread.denotes.loosen (Nat.zero_le _)),
    ((Target.meets ht).bind fun t hcode => hread.meets.map fun x hx => ?_).of_words ?_⟩
  · rw [hcode]
    exact (Statement.Renders.assign (Calc.expression?_text hg hv hx)).all
  · intro p hp
    simp [Statement.words, hp, or_and_right, exists_or]

theorem translates_result {depth : Nat} {value : Calc} (hg : value.Grouped) (h : value.IsSpelled) :
    Translates depth (Statement.result (some value)).lines (Statement.result (some value)).words
      (Statement.AllRender [.result (some value)]) := by
  have hread := DenotesWords.of_calc hg h
  have htext : (s!"return {value.text}").toList = "return".toList ++ ' ' :: value.text.toList := by
    simp [toString]
  have hword : Tidy "return".toList := .of_word (by decide)
  have hline : SettlesLine s!"return {value.text}" _ :=
    .of_tidy (htext ▸ hword.spaced (Calc.tidy value h)) ⟨'r', by rw [htext]; simp, by decide⟩
  rw [htext] at hline
  refine ⟨_, _, .line hline depth, .result (hread.denotes.loosen (Nat.zero_le _)),
    (hread.meets.map fun x hx => ?_).of_words fun p hp => ?_⟩
  · exact (Statement.Renders.result (Calc.expression?_text hg h hx)).all
  · simp [Statement.words, hp]

theorem translates_noResult (depth : Nat) :
    Translates depth (Statement.result none).lines (Statement.result none).words
      (Statement.AllRender [.result none]) := by
  have hline : SettlesLine "return" "return".toList :=
    .of_word (by decide) (by decide)
  have hmeets : Meets [] (Statement.AllRender [.result none]) (some [.result none]) :=
    .some Statement.Renders.noResult.all
  refine ⟨_, _, .line hline depth, .word (by decide) .noResult, hmeets.of_words fun p hp => ?_⟩
  simp [Statement.words, hp]

theorem translates_break (depth : Nat) :
    Translates depth (Line.body [.code "break"]) [] (· = [.breakLoop]) := by
  have hline : SettlesLine "break" "break".toList :=
    .of_word (by decide) (by decide)
  exact ⟨_, _, .line hline depth, .word (by decide) .breakLoop, .some rfl⟩

/-! ### Statements with bodies -/

section Bodies

variable {depth : Nat} {ls ls' : List Line} {ws ws' : List Word}
  {P P' Q : List Code.Statement → Prop} {c : Condition}

/-- A line with a condition between a word and a colon. -/
theorem Condition.Settles.line {blank cs : List Char} (h : c.Settles blank cs) :
    SettlesLine s!"if {c.text}:" ("if".toList ++ ' ' :: (cs ++ [':'])) := by
  have hword : Tidy "if".toList := .of_word (by decide)
  have hcolon : Tidy [':'] := .single (by decide) (by decide)
  have htext : (s!"if {c.text}:").toList = "if".toList ++ ' ' :: (c.text.toList ++ [':']) := by
    simp [toString]
  refine ⟨hword.spaced (h.tidy.append hcolon), ?_, 'f', by simp, by decide⟩
  rw [htext, hword.squeezed_append, h.behind_blank, hcolon.squeezed]

theorem translates_branch (hg : c.Grouped) (h : c.IsSpelled)
    (hb : Translates (depth + 1) (Line.body ls) ws P)
    (hQ : ∀ x b, expression? c.text = some x → P b → Q [.branch x b []]) :
    Translates depth (.code s!"if {c.text}:" :: Line.block ls) (c.words ++ ws) Q := by
  obtain ⟨blank, cs, hsettles, hparted, -⟩ := Condition.settles c hg h
  obtain ⟨o, hread⟩ := hparted.denotes
  obtain ⟨cb, b, hlays, hbody, hmeets⟩ := hb
  have hbranch := DenotesLines.branch (DenotesBranch.plain hread.denotes hbody hlays.ne_nil)
  refine ⟨_, o.bind fun x => b.map fun b => [.branch x b []], .block hsettles.line hlays, ?_,
    hread.meets.bind fun x hx => hmeets.map fun b hb => ?_⟩
  · simpa [Option.map_bind, Function.comp_def] using hbranch
  · exact hQ x b (hsettles.expression?_text (hx ▸ hread.denotes)) hb

theorem translates_choice (hg : c.Grouped) (h : c.IsSpelled)
    (hb : Translates (depth + 1) (Line.body ls) ws P)
    (hb' : Translates (depth + 1) (Line.body ls') ws' P')
    (hQ : ∀ x b b', expression? c.text = some x → P b → P' b' → Q [.branch x b b']) :
    Translates depth (.code s!"if {c.text}:" :: Line.block ls ++ .code "else:" :: Line.block ls')
      (c.words ++ (ws ++ ws')) Q := by
  obtain ⟨blank, cs, hsettles, hparted, -⟩ := Condition.settles c hg h
  obtain ⟨o, hread⟩ := hparted.denotes
  obtain ⟨cb, b, hlays, hbody, hmeets⟩ := hb
  obtain ⟨cb', b', hlays', hbody', hmeets'⟩ := hb'
  have helse : SettlesLine "else:" "else:".toList :=
    .of_word (by decide) (by decide)
  have hbranch := DenotesLines.branch
    (DenotesBranch.choice hread.denotes hbody hlays.ne_nil hbody' hlays'.ne_nil)
  refine ⟨_, o.bind fun x => b.bind fun b => b'.map fun b' => [.branch x b b'],
    (Lays.block hsettles.line hlays).append (.block helse hlays'), ?_,
    hread.meets.bind fun x hx => hmeets.bind fun b hb => hmeets'.map fun b' hb' => ?_⟩
  · simpa [Option.map_bind, Function.comp_def] using hbranch
  · exact hQ x b b' (hsettles.expression?_text (hx ▸ hread.denotes)) hb hb'

/-- A loop that only a branch at the end of its body leaves. -/
theorem translates_repetition (hg : c.Grouped) (h : c.IsSpelled)
    (hb : Translates (depth + 1) (Line.body ls) ws P)
    (hQ : ∀ x b, expression? c.text = some x → P b →
      Q [.whileLoop (.boolean true) (b ++ [Code.Statement.branch x [.breakLoop] []])]) :
    Translates depth
      (.code "while True:" ::
        Line.block (Line.body ls ++ .code s!"if {c.text}:" :: Line.block [.code "break"]))
      (ws ++ c.words) Q := by
  have hleave : Translates (depth + 1) _ _
      fun b => ∃ x, expression? c.text = some x ∧ b = [.branch x [.breakLoop] []] :=
    translates_branch hg h (translates_break (depth + 2)) fun x b hx hb => ⟨x, hx, by rw [hb]⟩
  obtain ⟨cs, o, hlays, hbody, hmeets⟩ := hb.append (Q := fun b => Q [.whileLoop (.boolean true) b])
    hleave (by rintro b _ hb ⟨x, hx, rfl⟩; exact hQ x b hx hb)
  have hwhile : SettlesLine "while True:" ("while".toList ++ ' ' :: ("True".toList ++ [':'])) := by
    have hword : Tidy "while".toList := .of_word (by decide)
    have htrue : Tidy ("True".toList ++ [':']) := .of_word (by decide)
    exact .of_tidy (hword.spaced htrue) ⟨'w', .head _, by decide⟩
  have htrue : Denotes .or true "True".toList (some (.boolean true)) :=
    (Denotes.of_spells (.keyword "True" (by decide)) (.boolean true)).loosen (by decide)
  have hloop := DenotesLines.whileLoop htrue hbody hlays.ne_nil
  rw [← Line.body_of_ne_nil hlays.lines_ne_nil] at hlays
  refine ⟨_, o.map fun b => [.whileLoop (.boolean true) b], .block hwhile hlays, hloop,
    (hmeets.map fun b hb => hb).of_words fun p _ => ?_⟩
  simp

theorem translates_each {n : String} {source : Source} (hg : source.Grouped) (hn : IsName n)
    (h : source.IsSpelled) (hb : Translates (depth + 1) (Line.body ls) ws P)
    (hQ : ∀ x b, expression? source.text = some x → P b → Q [.forLoop n x b]) :
    Translates depth (.code s!"for {n} in {source.text}:" :: Line.block ls)
      ((.name, n) :: (source.words ++ ws)) Q := by
  obtain ⟨cb, b, hlays, hbody, hmeets⟩ := hb
  obtain ⟨o, hread⟩ := Source.denotes hg h
  have htext : (s!"for {n} in {source.text}:").toList =
      "for".toList ++ ' ' :: (n.toList ++ ' ' ::
        ("in".toList ++ ' ' :: (source.text.toList ++ [':']))) := by
    simp [toString]
  have hfor : Tidy "for".toList := .of_word (by decide)
  have hin : Tidy "in".toList := .of_word (by decide)
  have hcolon : Tidy [':'] := .single (by decide) (by decide)
  have htidy := hfor.spaced (hn.tidy.spaced (hin.spaced ((Source.tidy h).append hcolon)))
  have hline : SettlesLine s!"for {n} in {source.text}:" _ :=
    .of_tidy (htext ▸ htidy) ⟨'f', by rw [htext]; simp, by decide⟩
  rw [htext] at hline
  have hloop := DenotesLines.forLoop hn.denotesName (hread.denotes.loosen (Nat.zero_le _)) hbody
    hlays.ne_nil
  refine ⟨_, _, .block hline hlays, hloop,
    hn.meets.bind fun m hm => hread.meets.bind fun x hx => hmeets.map fun b hb => ?_⟩
  rw [hm]
  exact hQ x b (Source.expression?_text h (hx ▸ hread.denotes)) hb

theorem translates_procedure {n : String} {ps : List String} (hn : IsName n)
    (hps : ∀ p ∈ ps, IsName p) (hb : Translates (depth + 1) (Line.body ls) ws P)
    (hQ : ∀ b, P b → Q [.function n ps b]) :
    let list := ",".intercalate ps
    Translates depth (.code s!"def {n} ({list}):" :: Line.block ls)
      ((.name, n) :: (parameterWords ps ++ ws)) Q := by
  intro list
  obtain ⟨cb, b, hlays, hbody, hmeets⟩ := hb
  obtain ⟨o, hread, hparameters⟩ := denotesParameters hps
  have htext : (s!"def {n} ({list}):").toList = "def".toList ++ ' ' :: (n.toList ++ ([' '] ++
      '(' :: ((list.toList ++ [')']) ++ [':']))) := by
    simp [toString]
  have hdef : Tidy "def".toList := .of_word (by decide)
  have hcolon : Tidy [':'] := .single (by decide) (by decide)
  have hlist : Tidy ('(' :: (list.toList ++ [')'])) :=
    tidy_bracketed (.inl rfl) (fun p hp => (hps p hp).tidy) (by decide) (by decide)
  have htidy := hdef.spaced (hn.tidy.spaced (hlist.append hcolon))
  have hline : SettlesLine s!"def {n} ({list}):" _ :=
    .of_tidy (htext ▸ htidy) ⟨'d', by rw [htext]; simp, by decide⟩
  rw [htext] at hline
  have hfunction := DenotesLines.function hn.denotesName (.inr rfl) hread hbody hlays.ne_nil
  refine ⟨_, _, .block hline hlays, hfunction,
    hn.meets.bind fun m hm => hparameters.bind fun qs hqs => hmeets.map fun b hb => ?_⟩
  rw [hm, hqs]
  exact hQ b hb

end Bodies

/-! ### Statements -/

/-- The words of a statement are names and numbers that are spelled as such. -/
def Statement.IsSpelled (s : Statement) : Prop := ∀ w ∈ s.words, Spelled w

/-- The words of all of the statements are spelled as such. -/
def Statement.AllSpelled (ss : List Statement) : Prop := ∀ w ∈ Statement.wordsOf ss, Spelled w

theorem Statement.lines_ne_nil (s : Statement) : s.lines ≠ [] := by
  cases s with
  | result value => cases value <;> simp [Statement.lines]
  | _ => simp [Statement.lines]

theorem Statement.linesOf_ne_nil {ss : List Statement} (h : ss ≠ []) :
    Statement.linesOf ss ≠ [] := by
  obtain ⟨s, ss, rfl⟩ := List.exists_cons_of_ne_nil h
  simp [Statement.linesOf, s.lines_ne_nil]

mutual

/-- A statement without empty blocks is read as what target code reads for it. -/
theorem Statement.translates (depth : Nat) : (s : Statement) → s.Grouped → s.IsSpelled →
    Translates depth s.lines s.words (fun b => s.Full → Statement.AllRender [s] b)
  | .assign target value, hg, h => by
    simp only [Statement.IsSpelled, Statement.words, List.forall_mem_append,
      List.forall_mem_cons] at h
    exact (translates_assign hg h.1 h.2.2).imp fun _ hb _ => hb
  | .branch condition body, hg, h => by
    simp only [Statement.IsSpelled, Statement.words, List.cons_append, List.append_assoc,
      List.forall_mem_append, List.forall_mem_cons] at h
    have hbody := Statement.body_translates (depth + 1) body hg.2 h.2.2.2.1
    refine (translates_branch hg.1 h.2.1 hbody fun x b hx hb hfull => ?_).of_words fun p hp => ?_
    · exact (Statement.Renders.branch hx (hb hfull)).all
    · simp [Statement.words, hp, or_and_right, exists_or]
  | .choice condition body other, hg, h => by
    simp only [Statement.IsSpelled, Statement.words, List.cons_append, List.append_assoc,
      List.forall_mem_append, List.forall_mem_cons] at h
    have hbody := Statement.body_translates (depth + 1) body hg.2.1 h.2.2.2.1
    have hother := Statement.body_translates (depth + 1) other hg.2.2 h.2.2.2.2.2.1
    refine (translates_choice hg.1 h.2.1 hbody hother
      fun x b b' hx hb hb' hfull => ?_).of_words fun p hp => ?_
    · exact (Statement.Renders.choice hx (hb hfull.1) (hb' hfull.2)).all
    · simp [Statement.words, hp, or_and_right, exists_or]
  | .each counter source body, hg, h => by
    simp only [Statement.IsSpelled, Statement.words, List.cons_append, List.append_assoc,
      List.forall_mem_append, List.forall_mem_cons] at h
    have hbody := Statement.body_translates (depth + 1) body hg.2 h.2.2.2.2.2.1
    refine (translates_each hg.1 h.2.1 h.2.2.2.1 hbody fun x b hx hb hfull => ?_).of_words
      fun p hp => ?_
    · exact (Statement.Renders.each hx (hb hfull)).all
    · simp [Statement.words, hp, or_and_right, exists_or]
  | .repetition body condition, hg, h => by
    simp only [Statement.IsSpelled, Statement.words, List.cons_append, List.forall_mem_append,
      List.forall_mem_cons] at h
    have hbody := Statement.body_translates (depth + 1) body hg.1 h.2.1
    refine (translates_repetition hg.2 h.2.2.2 hbody fun x b hx hb hfull => ?_).of_words
      fun p hp => ?_
    · exact (Statement.Renders.repetition (hb hfull) hx).all
    · simp [Statement.words, hp, or_and_right, exists_or]
  | .procedure name parameters body, hg, h => by
    simp only [Statement.IsSpelled, Statement.words, List.cons_append, List.append_assoc,
      List.forall_mem_append, List.forall_mem_cons] at h
    have hbody := Statement.body_translates (depth + 1) body hg h.2.2.2.2.2.1
    refine (translates_procedure h.2.1 (isName_of_parameters h.2.2.2.1) hbody
      fun b hb hfull => ?_).of_words fun p hp => ?_
    · exact (Statement.Renders.procedure (hb hfull)).all
    · simp [Statement.words, hp, or_and_right, exists_or]
  | .result none, _, _ => (translates_noResult depth).imp fun _ hb _ => hb
  | .result (some value), hg, h =>
    (translates_result hg fun w hw => h w (.tail _ hw)).imp fun _ hb _ => hb

/-- So are the statements of a body; an empty body does nothing. -/
theorem Statement.body_translates (depth : Nat) : (ss : List Statement) →
    Statement.AllGrouped ss → Statement.AllSpelled ss →
    Translates depth (Line.body (Statement.linesOf ss)) (Statement.wordsOf ss)
      (fun b => ss ≠ [] ∧ Statement.AllFull ss → Statement.AllRender ss b)
  | [], _, _ => (translates_pass depth).imp fun _ _ h => absurd rfl h.1
  | [s], hg, h => by
    have hs := Statement.translates depth s hg.1 fun w hw => h w (List.mem_append_left _ hw)
    rw [Statement.linesOf, Statement.linesOf, List.append_nil, Line.body_of_ne_nil s.lines_ne_nil,
      Statement.wordsOf, Statement.wordsOf, List.append_nil]
    exact hs.imp fun b hb hfull => hb hfull.2.1
  | s :: s' :: ss, hg, h => by
    obtain ⟨hl, hr⟩ := List.forall_mem_append.mp h
    have hs := Statement.translates depth s hg.1 hl
    have hss := Statement.body_translates depth (s' :: ss) hg.2 hr
    rw [Line.body_of_ne_nil (Statement.linesOf_ne_nil (List.cons_ne_nil _ _))] at hss
    rw [Line.body_of_ne_nil (Statement.linesOf_ne_nil (List.cons_ne_nil _ _))]
    exact hs.append hss fun b b' hb hb' hfull =>
      (hb hfull.2.1).append (hb' ⟨nofun, hfull.2.2⟩)

end

end Growth.Pseudo
