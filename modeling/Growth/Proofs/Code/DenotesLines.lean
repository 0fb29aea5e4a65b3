import Growth.Proofs.Code.Denotes
import Growth.Proofs.Code.Layout
import Growth.Proofs.Code.ReadsBodies

/-! Texts of lines in blocks that are scanned and read as statements, or not at all. The text of a
statement is put together from those of its expressions and of its bodies. -/

namespace Growth.Code

/-! ### Lines as text -/

namespace Outline

mutual

/-- An outline as text inside `depth` blocks, every line with its end. -/
def lines (unit : List Char) (depth : Nat) : Outline → List Char
  | line content _ block =>
    indentation unit depth ++ content ++ '\n' :: Outline.linesOf unit (depth + 1) block

/-- Outlines as text, one after the other. -/
def linesOf (unit : List Char) (depth : Nat) : List Outline → List Char
  | [] => []
  | o :: os => o.lines unit depth ++ Outline.linesOf unit depth os

end

theorem linesOf_append (unit : List Char) (depth : Nat) (os os' : List Outline) :
    linesOf unit depth (os ++ os') = linesOf unit depth os ++ linesOf unit depth os' := by
  induction os with
  | nil => rfl
  | cons o os ih => rw [List.cons_append, linesOf, linesOf, ih, List.append_assoc]

theorem kindsOf_append (os os' : List Outline) : kindsOf (os ++ os') = kindsOf os ++ kindsOf os' := by
  induction os with
  | nil => rfl
  | cons o os ih => rw [List.cons_append, kindsOf, kindsOf, ih, List.append_assoc]

theorem allSound_append {os os' : List Outline} (h : AllSound os) (h' : AllSound os') :
    AllSound (os ++ os') := by
  induction os with
  | nil => exact h'
  | cons o os ih => exact ⟨h.1, ih h.2⟩

mutual

theorem text_append (unit : List Char) (depth : Nat) (rest : List Char) :
    (o : Outline) → o.text unit depth rest = o.text unit depth [] ++ rest
  | line content _ block => by
    rw [text, text, under_append unit (depth + 1) rest block, ← List.append_assoc]

theorem under_append (unit : List Char) (depth : Nat) (rest : List Char) :
    (os : List Outline) → under unit depth rest os = under unit depth [] os ++ rest
  | [] => rfl
  | o :: os => by
    rw [under, under, text_append unit depth (under unit depth rest os) o,
      text_append unit depth (under unit depth [] os) o, under_append unit depth rest os,
      ← List.append_assoc, List.cons_append]

end

mutual

theorem text_newline (unit : List Char) (depth : Nat) (rest : List Char) :
    (o : Outline) → o.text unit depth ('\n' :: rest) = o.lines unit depth ++ rest
  | line content _ block => by
    rw [text, lines, under_newline unit (depth + 1) rest block]
    simp

/-- The ends of lines stand behind the lines or before the next ones. -/
theorem under_newline (unit : List Char) (depth : Nat) (rest : List Char) :
    (os : List Outline) → under unit depth ('\n' :: rest) os = '\n' :: (linesOf unit depth os ++ rest)
  | [] => rfl
  | o :: os => by
    rw [under, under_newline unit depth rest os, text_newline unit depth _ o, linesOf,
      List.append_assoc]

end

end Outline

/-- The lines `cs`, inside `depth` blocks, are scanned and read as statements, or not at all. -/
def DenotesLines (unit : List Char) (depth : Nat) (cs : List Char) (o : Option (List Statement)) :
    Prop :=
  ∃ os, Outline.linesOf unit depth os = cs ∧ Outline.AllSound os ∧
    ReadsBlock (Outline.kindsOf os) o

namespace DenotesLines

variable {unit : List Char} {depth : Nat} {cs cs' : List Char} {o o' : Option (List Statement)}

theorem nil : DenotesLines unit depth [] (some []) :=
  ⟨[], rfl, trivial, .nil⟩

theorem append (h : DenotesLines unit depth cs o) (h' : DenotesLines unit depth cs' o') :
    DenotesLines unit depth (cs ++ cs') (o.bind fun ss => o'.map fun ss' => ss ++ ss') := by
  obtain ⟨os, rfl, hs, hr⟩ := h
  obtain ⟨os', rfl, hs', hr'⟩ := h'
  refine ⟨os ++ os', Outline.linesOf_append unit depth os os', Outline.allSound_append hs hs', ?_⟩
  rw [Outline.kindsOf_append]
  exact hr.append hr'

/-- A line without a body. -/
theorem line {content : List Char} {ks : List Kind} (hopens : Opens content) (hne : ks ≠ [])
    (hs : Scans (Follows false) [] content ks []) (hr : ReadsBlock (ks ++ [Kind.newline]) o) :
    DenotesLines unit depth (indentation unit depth ++ content ++ ['\n']) o := by
  refine ⟨[.line content ks []], ?_, ⟨⟨⟨hopens, hne, hs⟩, trivial⟩, trivial⟩, ?_⟩
  · simp [Outline.linesOf, Outline.lines]
  · simpa [Outline.kindsOf, Outline.kinds] using hr

theorem simple {content : List Char} {ks : List Kind} {s : Option Statement} (hopens : Opens content)
    (hs : Scans (Follows false) [] content ks []) (hr : ReadsSimple ks s)
    (ho : (s.map fun s => [s]) = o) :
    DenotesLines unit depth (indentation unit depth ++ content ++ ['\n']) o := by
  subst ho
  obtain ⟨k, ks', rfl, -⟩ := hr.leads
  exact line hopens (List.cons_ne_nil k ks') hs (.simple hr)

/-- A line and the body under it. -/
theorem body {content : List Char} {ks : List Kind} {b : Option (List Statement)}
    (hopens : Opens content) (hks : ks ≠ []) (hs : Scans (Follows false) [] content ks [])
    (h : DenotesLines unit (depth + 1) cs b) (hcs : cs ≠ [])
    (hr : ∀ ks', ReadsSuite ks' b → ReadsBlock (ks ++ ks') o) :
    DenotesLines unit depth (indentation unit depth ++ content ++ '\n' :: cs) o := by
  obtain ⟨os, rfl, hsound, hreads⟩ := h
  have hos : os ≠ [] := by
    rintro rfl
    exact hcs rfl
  refine ⟨[.line content ks os], ?_, ⟨⟨⟨hopens, hks, hs⟩, hsound⟩, trivial⟩, ?_⟩
  · simp [Outline.linesOf, Outline.lines]
  · simpa [Outline.kindsOf, Outline.kinds, hos] using hr _ (.of_block hreads)

end DenotesLines

/-! ### Statements without bodies -/

/-- The text `cs` is scanned and read as something that can be assigned to, or not. -/
structure DenotesTarget (cs : List Char) (o : Option Target) : Prop where
  opens : Opens cs
  scans : ∃ k ks x, (∀ bs, Scans (Follows false) bs cs (k :: ks) bs) ∧ Reads .tuple (k :: ks) x ∧
    k.isPlain = true ∧ (∀ w : Keyword, w.isOwn = true → k ≠ .keyword w) ∧
    o = x.bind Expression.target?

theorem DenotesTarget.of_expression {dot : Bool} {cs : List Char} {x : Expression}
    (hopens : Opens cs) (h : Denotes .tuple dot cs (some x)) : DenotesTarget cs x.target? := by
  obtain ⟨ks, hs, hr⟩ := h.withoutDot
  obtain ⟨k, ks', rfl, -, -⟩ := hr.leads
  have hk := ReadsSimple.starts_of_reads hr
  exact ⟨hopens, k, ks', some x, hs, hr, ReadsSimple.isPlain_of_starts hk,
    ReadsSimple.ne_isOwn_of_starts hk, rfl⟩

namespace DenotesLines

variable {unit : List Char} {depth : Nat} {cs cs' : List Char} {dot : Bool}
  {t : Option Target} {o : Option Expression}

theorem expression {x : Expression} (hopens : Opens cs) (h : Denotes .tuple dot cs (some x)) :
    DenotesLines unit depth (indentation unit depth ++ cs ++ ['\n']) (some [.expression x]) := by
  obtain ⟨ks, hs, hr⟩ := h.withoutDot
  exact simple hopens (hs []) (.expression hr) rfl

theorem assign (ht : DenotesTarget cs t) (h : Denotes .tuple dot cs' o) :
    DenotesLines unit depth (indentation unit depth ++ (cs ++ ' ' :: '=' :: ' ' :: cs') ++ ['\n'])
      (t.bind fun t => o.map fun x => [.assign t x]) := by
  obtain ⟨hopens, k, ks, x, hs, hr, hk, hown, rfl⟩ := ht
  obtain ⟨ks', hs', hr'⟩ := h.withoutDot
  exact simple (hopens.append _) (.between (hs []) .equal (hs' [])) (.assign hr hk hown hr')
    (by simp [Option.map_bind, Function.comp_def])

theorem update (op : Operator) (ht : DenotesTarget cs t) (h : Denotes .tuple dot cs' o) :
    DenotesLines unit depth
      (indentation unit depth ++ (cs ++ ' ' :: (op.text.toList ++ '=' :: ' ' :: cs')) ++ ['\n'])
      (t.bind fun t => o.map fun x => [.update t op x]) := by
  obtain ⟨hopens, k, ks, x, hs, hr, hk, hown, rfl⟩ := ht
  obtain ⟨ks', hs', hr'⟩ := h.withoutDot
  have hscans : Scans (Follows false) [] (cs ++ ' ' :: ((op.text.toList ++ ['=']) ++ ' ' :: cs'))
      (k :: ks ++ ([Kind.mark (.augmented op)] ++ ks')) [] :=
    .between (hs []) (.augmented op) (hs' [])
  rw [List.append_assoc] at hscans
  exact simple (hopens.append _) hscans (.update op hr hk hown hr')
    (by simp [Option.map_bind, Function.comp_def])

/-- A statement that is one word. -/
theorem word {w : Keyword} {word : String} (hw : (word, w) ∈ Keyword.table) {s : Statement}
    (hr : ReadsSimple [.keyword w] (some s)) :
    DenotesLines unit depth (indentation unit depth ++ word.toList ++ ['\n']) (some [s]) := by
  have hspells := Spells.keyword word hw
  exact simple hspells.opens (hspells.scans.mono fun _ h => h.mono _) hr rfl

theorem result (h : Denotes .tuple dot cs o) :
    DenotesLines unit depth (indentation unit depth ++ ("return".toList ++ ' ' :: cs) ++ ['\n'])
      (o.map fun x => [.result (some x)]) := by
  obtain ⟨ks, hs, hr⟩ := h.withoutDot
  have hspells : Spells "return".toList (.keyword .returnKw) :=
    .keyword "return" (by decide)
  exact simple (hspells.opens.append _)
    (.append hspells.scans (hs []).afterBlank fun _ _ => .cons (by decide) _ _) (.result hr)
    (by simp [Function.comp_def])

end DenotesLines

/-! ### Statements with bodies -/

/-- A condition between a word and its body. -/
theorem Denotes.scans_condition {dot : Bool} {cs : List Char} {o : Option Expression}
    (h : Denotes .or dot cs o) :
    ∃ ks, Scans (Follows false) [] (' ' :: (cs ++ [':'])) ks [] ∧ ReadsCondition ks o := by
  obtain ⟨ks, hs, hr⟩ := h
  exact ⟨_, Scans.afterBlank (.append (hs []) .colon fun _ _ => .cons (by decide) _ _),
    .of_reads hr⟩

/-- The text `cs` is scanned and read as parameters up to and including the closing parenthesis, or
not at all. -/
def DenotesParameters (cs : List Char) (o : Option (List String)) : Prop :=
  ∃ ks, (∀ bs F, Scans F (.round :: bs) cs ks bs) ∧ ReadsParameters ks o

/-- A word of the text, which may be a name. -/
structure DenotesName (cs : List Char) (o : Option String) : Prop where
  spells : ∃ k, Spells cs k ∧ k.takesDot = true ∧ k ≠ .mark (.closing .round) ∧ o = k.name?

theorem DenotesName.of_identifier {n : String} (h : Spells n.toList (.identifier n)) :
    DenotesName n.toList (some n) :=
  ⟨_, h, rfl, nofun, rfl⟩

namespace DenotesParameters

variable {cs cs' : List Char} {o : Option String} {o' : Option (List String)}

theorem nil : DenotesParameters [')'] (some []) :=
  ⟨_, fun _ _ => .closing .round, .nil⟩

theorem blank (h : DenotesParameters cs o') : DenotesParameters (' ' :: cs) o' := by
  obtain ⟨ks, hs, hr⟩ := h
  exact ⟨ks, fun bs F => (hs bs F).afterBlank, hr⟩

theorem one (h : DenotesName cs o) :
    DenotesParameters (cs ++ [')']) (o.map fun n => [n]) := by
  obtain ⟨k, hk, -, hc, rfl⟩ := h
  exact ⟨_, fun bs F => .append hk.scans (.closing .round) fun _ _ => .cons (by decide) _ _,
    .one hc⟩

theorem cons (h : DenotesName cs o) (h' : DenotesParameters cs' o') :
    DenotesParameters (cs ++ ',' :: cs') (o.bind fun n => o'.map fun ns => n :: ns) := by
  obtain ⟨k, hk, -, hc, rfl⟩ := h
  obtain ⟨ks, hs, hr⟩ := h'
  exact ⟨_, fun bs F => .append hk.scans (.consSign .comma (hs bs F)) fun _ _ =>
    .cons (by decide) _ _, .cons hc hr⟩

end DenotesParameters

namespace DenotesLines

variable {unit : List Char} {depth : Nat} {cs cn cb : List Char} {dot : Bool} {n : Option String}
  {ps : Option (List String)} {o : Option Expression} {b : Option (List Statement)}

/-- A blank may stand before the parameters. -/
theorem function (hn : DenotesName cn n) {gap : List Char} (hgap : gap = [] ∨ gap = [' '])
    (hp : DenotesParameters cs ps) (hb : DenotesLines unit (depth + 1) cb b) (hcb : cb ≠ []) :
    DenotesLines unit depth
      (indentation unit depth ++ ("def".toList ++ ' ' :: (cn ++ (gap ++ '(' :: (cs ++ [':'])))) ++
        '\n' :: cb)
      (n.bind fun n => ps.bind fun ps => b.map fun b => [.function n ps b]) := by
  obtain ⟨k, hk, -, -, rfl⟩ := hn
  obtain ⟨ks, hs, hr⟩ := hp
  have hword : Spells "def".toList (.keyword .defKw) :=
    .keyword "def" (by decide)
  have hopen : Scans (Follows false) [] ('(' :: (cs ++ [':']))
      (.mark (.opening .round) :: (ks ++ [Kind.mark .colon])) [] :=
    .consSign (.opening .round) (.before (hs [] _) .colon)
  have hafter : Scans (Follows false) [] (gap ++ '(' :: (cs ++ [':']))
      (.mark (.opening .round) :: (ks ++ [Kind.mark .colon])) [] := by
    rcases hgap with rfl | rfl
    · exact hopen
    · exact hopen.afterBlank
  have hfollows : ∀ rest, Follows k.takesDot ((gap ++ '(' :: (cs ++ [':'])) ++ rest) := by
    rcases hgap with rfl | rfl
    · exact fun _ => .cons (by decide) _ _
    · exact fun _ => .cons (by decide) _ _
  refine body (hword.opens.append _) (List.cons_ne_nil _ _)
    (.append hword.scans (Scans.afterBlank (.append hk.scans hafter fun _ _ => hfollows _))
      fun _ _ => .cons (by decide) _ _) hb hcb fun ks' hs' => ?_
  simpa using ReadsBlock.function hr hs'

theorem whileLoop (hc : Denotes .or dot cs o) (hb : DenotesLines unit (depth + 1) cb b)
    (hcb : cb ≠ []) :
    DenotesLines unit depth
      (indentation unit depth ++ ("while".toList ++ ' ' :: (cs ++ [':'])) ++ '\n' :: cb)
      (o.bind fun x => b.map fun b => [.whileLoop x b]) := by
  obtain ⟨ks, hs, hr⟩ := hc.scans_condition
  have hword : Spells "while".toList (.keyword .whileKw) :=
    .keyword "while" (by decide)
  refine body (hword.opens.append _) (List.cons_ne_nil _ _)
    (.append hword.scans hs fun _ _ => .cons (by decide) _ _) hb hcb fun ks' hs' => ?_
  exact .whileLoop hr hs'

theorem forLoop (hn : DenotesName cn n) (h : Denotes .tuple dot cs o)
    (hb : DenotesLines unit (depth + 1) cb b) (hcb : cb ≠ []) :
    DenotesLines unit depth
      (indentation unit depth ++
        ("for".toList ++ ' ' :: (cn ++ ' ' :: ("in".toList ++ ' ' :: (cs ++ [':'])))) ++ '\n' :: cb)
      (n.bind fun n => o.bind fun x => b.map fun b => [.forLoop n x b]) := by
  obtain ⟨k, hk, -, -, rfl⟩ := hn
  obtain ⟨ks, hs, hr⟩ := h
  have hword : Spells "for".toList (.keyword .forKw) :=
    .keyword "for" (by decide)
  have hin : Spells "in".toList (.keyword .inKw) :=
    .keyword "in" (by decide)
  have hsource : Scans (Follows false) [] (cs ++ [':']) (ks ++ [Kind.mark .colon]) [] :=
    .append (hs []) .colon fun _ _ => .cons (by decide) _ _
  refine body (hword.opens.append _) (List.cons_ne_nil _ _)
    (.append hword.scans (Scans.afterBlank
      (.between hk.scans (.spaced_of_spells hin) hsource)) fun _ _ => .cons (by decide) _ _) hb hcb
    fun ks' hs' => ?_
  simpa using ReadsBlock.forLoop hr hs'

end DenotesLines

/-- The text `cs` behind the word of a branch is scanned and read as the branch, or not at all. -/
def DenotesBranch (unit : List Char) (depth : Nat) (cs : List Char) (s : Option Statement) : Prop :=
  ∃ content ks block os,
    (content ++ '\n' :: Outline.linesOf unit (depth + 1) block ++ Outline.linesOf unit depth os = cs ∧
      block ≠ []) ∧
    (content.head? = some ' ' ∧ Scans (Follows false) [] content ks []) ∧
    (Outline.AllSound block ∧ Outline.AllSound os) ∧
    ReadsBranch (ks ++ (.newline :: .indent :: Outline.kindsOf block ++ [.dedent] ++
      Outline.kindsOf os)) s

namespace DenotesBranch

variable {unit : List Char} {depth : Nat} {cs cb cb' : List Char} {dot : Bool}
  {o : Option Expression} {b b' : Option (List Statement)} {s : Option Statement}

theorem plain (hc : Denotes .or dot cs o) (hb : DenotesLines unit (depth + 1) cb b)
    (hcb : cb ≠ []) :
    DenotesBranch unit depth (' ' :: (cs ++ [':']) ++ '\n' :: cb)
      (o.bind fun x => b.map fun b => .branch x b []) := by
  obtain ⟨ks, hs, hr⟩ := hc.scans_condition
  obtain ⟨block, rfl, hsound, hreads⟩ := hb
  refine ⟨_, ks, block, [], ⟨?_, ?_⟩, ⟨rfl, hs⟩, ⟨hsound, trivial⟩, ?_⟩
  · simp [Outline.linesOf]
  · rintro rfl
    exact hcb rfl
  · simpa [Outline.kindsOf] using ReadsBranch.plain hr (.of_block hreads)

/-- A branch with another body. -/
theorem choice (hc : Denotes .or dot cs o) (hb : DenotesLines unit (depth + 1) cb b)
    (hcb : cb ≠ []) (hb' : DenotesLines unit (depth + 1) cb' b') (hcb' : cb' ≠ []) :
    DenotesBranch unit depth
      (' ' :: (cs ++ [':']) ++ '\n' :: (cb ++ (indentation unit depth ++ "else:".toList ++
        '\n' :: cb')))
      (o.bind fun x => b.bind fun b => b'.map fun b' => .branch x b b') := by
  obtain ⟨ks, hs, hr⟩ := hc.scans_condition
  obtain ⟨block, rfl, hsound, hreads⟩ := hb
  obtain ⟨block', rfl, hsound', hreads'⟩ := hb'
  have hblock : block ≠ [] := by
    rintro rfl
    exact hcb rfl
  have hblock' : block' ≠ [] := by
    rintro rfl
    exact hcb' rfl
  have hword : Spells "else".toList (.keyword .elseKw) :=
    .keyword "else" (by decide)
  have helse : Scans (Follows false) [] "else:".toList [.keyword .elseKw, .mark .colon] [] :=
    .append hword.scans .colon fun _ _ => .cons (by decide) _ _
  refine ⟨_, ks, block, [.line "else:".toList [.keyword .elseKw, .mark .colon] block'],
    ⟨?_, hblock⟩, ⟨rfl, hs⟩, ⟨hsound, ⟨⟨hword.opens.append [':'], by simp, helse⟩, hsound'⟩, trivial⟩,
    ?_⟩
  · simp [Outline.linesOf, Outline.lines]
  · simpa [Outline.kindsOf, Outline.kinds, hblock'] using
      ReadsBranch.choice hr (.of_block hreads) (.of_block hreads')

/-- A branch with a further condition. -/
theorem chain (hc : Denotes .or dot cs o) (hb : DenotesLines unit (depth + 1) cb b)
    (hcb : cb ≠ []) (h : DenotesBranch unit depth cb' s) :
    DenotesBranch unit depth
      (' ' :: (cs ++ [':']) ++ '\n' :: (cb ++ (indentation unit depth ++ ("elif".toList ++ cb'))))
      (o.bind fun x => b.bind fun b => s.map fun s => .branch x b [s]) := by
  obtain ⟨ks, hs, hr⟩ := hc.scans_condition
  obtain ⟨block, rfl, hsound, hreads⟩ := hb
  obtain ⟨content, ks', block', os, ⟨rfl, hblock'⟩, ⟨hhead, hs'⟩, ⟨hsound', hos⟩, hr'⟩ := h
  have hblock : block ≠ [] := by
    rintro rfl
    exact hcb rfl
  have hword : Spells "elif".toList (.keyword .elifKw) :=
    .keyword "elif" (by decide)
  obtain ⟨content, rfl⟩ := List.head?_eq_some_iff.mp hhead
  have helif : Scans (Follows false) [] ("elif".toList ++ ' ' :: content)
      (.keyword .elifKw :: ks') [] :=
    .append hword.scans hs' fun _ _ => .cons (by decide) _ _
  refine ⟨_, ks, block,
    .line ("elif".toList ++ ' ' :: content) (.keyword .elifKw :: ks') block' :: os,
    ⟨?_, hblock⟩, ⟨rfl, hs⟩, ⟨hsound, ⟨⟨hword.opens.append _, by simp, helif⟩, hsound'⟩, hos⟩, ?_⟩
  · simp [Outline.linesOf, Outline.lines]
  · have hchain := ReadsBranch.chain hr (.of_block hreads) hr'
    simpa [Outline.kindsOf, Outline.kinds, hblock'] using hchain

end DenotesBranch

namespace DenotesLines

variable {unit : List Char} {depth : Nat} {cs : List Char}

theorem branch {s : Option Statement} (h : DenotesBranch unit depth cs s) :
    DenotesLines unit depth (indentation unit depth ++ ("if".toList ++ cs)) (s.map fun s => [s]) := by
  obtain ⟨content, ks, block, os, ⟨rfl, hblock⟩, ⟨hhead, hs⟩, ⟨hsound, hos⟩, hr⟩ := h
  have hword : Spells "if".toList (.keyword .ifKw) :=
    .keyword "if" (by decide)
  obtain ⟨content, rfl⟩ := List.head?_eq_some_iff.mp hhead
  have hif : Scans (Follows false) [] ("if".toList ++ ' ' :: content) (.keyword .ifKw :: ks) [] :=
    .append hword.scans hs fun _ _ => .cons (by decide) _ _
  refine ⟨.line ("if".toList ++ ' ' :: content) (.keyword .ifKw :: ks) block :: os, ?_,
    ⟨⟨⟨hword.opens.append _, by simp, hif⟩, hsound⟩, hos⟩, ?_⟩
  · simp [Outline.linesOf, Outline.lines]
  · simpa [Outline.kindsOf, Outline.kinds, hblock] using ReadsBlock.branch hr

/-- An assignment to a word that begins another statement, or none, is no statement. -/
theorem spoiled {w : Keyword} (hw : w.spoils = true) {word : String}
    (hword : (word, w) ∈ Keyword.table) {ci : List Char} {index : List Kind}
    (hindex : IndexKinds index) (hs : Scans (Follows false) [] ci index [])
    (hci : ∀ rest, Follows true (ci ++ ' ' :: rest)) {dot : Bool} {o : Option Expression}
    (h : Denotes .tuple dot cs o) :
    DenotesLines unit depth
      (indentation unit depth ++ (word.toList ++ ci ++ ' ' :: '=' :: ' ' :: cs) ++ ['\n']) none := by
  obtain ⟨ks, hsv, -⟩ := h.withoutDot
  have hspells := Spells.keyword word hword
  have htarget : Scans (Follows false) [] (ci ++ ' ' :: ('=' :: ' ' :: cs))
      (index ++ (Kind.mark .equal :: ks)) [] := .between hs .equal (hsv [])
  have hline : Scans (Follows false) [] (word.toList ++ ci ++ ' ' :: '=' :: ' ' :: cs)
      (.keyword w :: (index ++ Kind.mark .equal :: ks)) [] := by
    rw [List.append_assoc]
    refine .append hspells.scans htarget fun rest _ => ?_
    rw [List.append_assoc]
    exact hci _
  refine line ((hspells.opens.append _).append _) (by simp) hline ?_
  have hblock : ReadsBlock
      (.keyword w :: (index ++ Kind.mark .equal :: (ks ++ [Kind.newline]))) none :=
    .spoiled hw hindex
  simpa using hblock

end DenotesLines

/-! ### Programs -/

/-- A text that is lines of statements is a program; the end of its last line may be missing. -/
theorem DenotesLines.ofText {unit : List Char} {width : Nat} (hu : Indents unit width)
    {cs : List Char} (hcs : cs ≠ []) {o : Option (List Statement)} (h : DenotesLines unit 0 cs o)
    {source : String} (hsource : source.toList = cs ∨ source.toList ++ ['\n'] = cs) :
    match o with
    | some ss => Module.ofText source = .ok ⟨ss⟩
    | none => ∃ e, Module.ofText source = .error e := by
  obtain ⟨os, rfl, hsound, hreads⟩ := h
  have hos : os ≠ [] := by
    rintro rfl
    exact hcs rfl
  obtain ⟨rest, hrest, htext⟩ : ∃ rest, (rest = [] ∨ rest = ['\n']) ∧
      source.toList = (Outline.under unit 0 rest os).tail := by
    have hunder := Outline.under_newline unit 0 [] os
    rcases hsource with hsource | hsource
    · exact ⟨['\n'], .inr rfl, by rw [hunder, hsource]; simp⟩
    · refine ⟨[], .inl rfl, ?_⟩
      rw [Outline.under_append, List.append_nil, ← hsource, ← List.cons_append] at hunder
      rw [List.append_cancel_right hunder, List.tail_cons]
  obtain ⟨ts, hts, hkinds⟩ := Outline.tokens_of_outlines hu hos hsound hrest
  rw [← htext, String.ofList_toList] at hts
  have hprogram := hreads.ofTokens hkinds
  unfold Module.ofText
  rw [hts]
  cases o <;> exact hprogram

/-- The text of an expression is a program of one statement. -/
theorem Denotes.ofText {source : String} {dot : Bool} {x : Expression}
    (hopens : Opens source.toList) (h : Denotes .tuple dot source.toList (some x)) :
    Module.ofText source = .ok ⟨[.expression x]⟩ := by
  have hline : DenotesLines ['\t'] 0 (source.toList ++ ['\n']) (some [.expression x]) :=
    .expression hopens h
  exact hline.ofText indents_tab (by simp) (.inr rfl)

end Growth.Code
