import Growth.Proofs.Rendition.Joined

/-! The blocks of generated code. Each block is opened under a line that ends in a colon, begins with a
line of its own and is closed, whatever was stepped over in reading. Resolving the marks therefore
indents each line by one tab for each block around it, and passes over no mark. -/

namespace Growth.Pseudo

namespace Layout

/-! ### Marks -/

/-- The line says where a block begins or ends. -/
def IsMark (l : List Char) : Prop :=
  l = Line.opening.chars ∨ l = Line.closing.chars

theorem not_isMark_of_mem {l : List Char} {c : Char} (h : c ∈ l) (hc : c ∉ Line.closing.chars) :
    ¬IsMark l := by
  have hsuffix : Line.opening.chars <:+ Line.closing.chars := ⟨"UN".toList, by decide⟩
  rintro (rfl | rfl)
  · exact hc (hsuffix.subset h)
  · exact hc h

/-- The blocks that are open behind a line, if `depth` are open before it. -/
def deepened (depth : Nat) (l : List Char) : Nat :=
  if l = Line.opening.chars then depth + 1
  else if l = Line.closing.chars then depth - 1
  else depth

/-- The blocks that are open behind lines, as they are counted when the lines are laid out. -/
def depth (ls : List (List Char)) : Nat :=
  ls.foldl deepened 0

section Equations

variable {l : List Char}

/-- A mark only changes the number of open blocks. -/
theorem laid_mark (h : IsMark l) (n : Nat) (rest : List (List Char)) :
    laid n (l :: rest) = laid (deepened n l) rest := by
  have hmarks : Line.closing.chars ≠ Line.opening.chars := by decide
  rcases h with rfl | rfl
  · rw [deepened, if_pos rfl, laid_opening]
  · rw [deepened, if_neg hmarks, if_pos rfl]
    exact (if_neg hmarks).trans (if_pos rfl)

theorem laid_unmarked (h : ¬IsMark l) (n : Nat) (rest : List (List Char)) :
    laid n (l :: rest) = List.replicate n '\t' ++ squeezed l ++ '\n' :: laid n rest :=
  laid_line (fun heq => h (.inl heq)) (fun heq => h (.inr heq)) n rest

theorem deepened_unmarked (h : ¬IsMark l) (n : Nat) : deepened n l = n := by
  rw [deepened, if_neg fun heq => h (.inl heq), if_neg fun heq => h (.inr heq)]

end Equations

/-- The lines behind others are laid out inside the blocks that are open behind those. -/
theorem laid_append (n : Nat) (ls rest : List (List Char)) :
    laid n (ls ++ rest) = laid n ls ++ laid (ls.foldl deepened n) rest := by
  induction ls generalizing n with
  | nil => rfl
  | cons l ls ih =>
    rw [List.cons_append, List.foldl_cons]
    by_cases hmark : IsMark l
    · rw [laid_mark hmark, laid_mark hmark, ih]
    · rw [laid_unmarked hmark, laid_unmarked hmark, deepened_unmarked hmark, ih]
      simp

/-- While no more blocks were closed than were opened, the open blocks are the difference. -/
theorem depth_add_count {ls : List (List Char)}
    (h : ∀ front, front <+: ls → front.count Line.closing.chars ≤ front.count Line.opening.chars) :
    depth ls + ls.count Line.closing.chars = ls.count Line.opening.chars := by
  induction ls using List.reverseRecOn with
  | nil => rfl
  | append_singleton ls l ih =>
    have hbefore := ih fun front hfront => h front (hfront.trans (List.prefix_append ls [l]))
    have hwhole := h (ls ++ [l]) List.prefix_rfl
    have hdepth : depth (ls ++ [l]) = deepened (depth ls) l := by
      rw [depth, List.foldl_append, List.foldl_cons, List.foldl_nil, ← depth]
    have hne : Line.opening.chars ≠ Line.closing.chars := by decide
    rw [List.count_append, List.count_append] at hwhole ⊢
    rw [hdepth, deepened]
    split
    · rename_i hopening
      subst hopening
      rw [List.count_singleton_self, List.count_singleton, if_neg (by simpa using hne)]
      omega
    split
    · rename_i hclosing
      subst hclosing
      rw [List.count_singleton_self, List.count_singleton, if_neg (by simpa using hne.symm)]
        at hwhole ⊢
      omega
    · rename_i hopening hclosing
      rw [List.count_singleton, List.count_singleton, if_neg (by simpa using hclosing),
        if_neg (by simpa using hopening)]
      omega

/-! ### Blocks that are written -/

/-- Inside `n` blocks the marked lines are written as the rows: a line with one tab for each block
around it, and a block as its lines, without its marks. -/
inductive Writes : Nat → List (List Char) → List (List Char) → Prop
  | nil (n : Nat) : Writes n [] []
  | line {n : Nat} {l : List Char} {ls rows : List (List Char)} (hl : ¬IsMark l)
      (h : Writes n ls rows) :
      Writes n (l :: ls) ((List.replicate n '\t' ++ squeezed l) :: rows)
  | block {n : Nat} {inner ls rows rows' : List (List Char)} (hinner : Writes (n + 1) inner rows)
      (h : Writes n ls rows') :
      Writes n (Line.opening.chars :: inner ++ Line.closing.chars :: ls) (rows ++ rows')

namespace Writes

variable {n : Nat} {ls ls' rows rows' : List (List Char)}

theorem append (h : Writes n ls rows) (h' : Writes n ls' rows') :
    Writes n (ls ++ ls') (rows ++ rows') := by
  induction h with
  | nil n => exact h'
  | line hl _ ih => exact .line hl (ih h')
  | @block n inner ls rows rows₁ hinner _ _ ih =>
    have hblock := Writes.block hinner (ih h')
    rw [← List.append_assoc] at hblock
    simpa using hblock

/-- The rows are what the lines are laid out as. -/
theorem laid (h : Writes n ls rows) (rest : List (List Char)) :
    laid n (ls ++ rest) = Text.unlines rows ++ Layout.laid n rest := by
  induction h generalizing rest with
  | nil n => rfl
  | line hl _ ih =>
    rw [List.cons_append, laid_unmarked hl, ih, Text.unlines_cons]
    simp
  | block _ _ ihinner ih =>
    rw [List.append_assoc, List.cons_append, laid_opening, ihinner, List.cons_append, laid_closing,
      ih, Text.unlines_append, List.append_assoc]

/-- Each row is a line with tabs before it, and without the spaces that stand side by side in it. -/
theorem exists_line (h : Writes n ls rows) {row : List Char} (hrow : row ∈ rows) :
    ∃ k, ∃ l ∈ ls, ¬IsMark l ∧ row = List.replicate k '\t' ++ squeezed l := by
  induction h with
  | nil n => cases hrow
  | @line n l ls rows hl _ ih =>
    rcases List.mem_cons.mp hrow with rfl | hrow
    · exact ⟨n, l, List.mem_cons_self .., hl, rfl⟩
    · obtain ⟨k, l', hmem, hl', heq⟩ := ih hrow
      exact ⟨k, l', List.mem_cons_of_mem l hmem, hl', heq⟩
  | block _ _ ihinner ih =>
    rcases List.mem_append.mp hrow with hrow | hrow
    · obtain ⟨k, l, hmem, hl, heq⟩ := ihinner hrow
      exact ⟨k, l, List.mem_append_left _ (List.mem_cons_of_mem _ hmem), hl, heq⟩
    · obtain ⟨k, l, hmem, hl, heq⟩ := ih hrow
      exact ⟨k, l, List.mem_append_right _ (List.mem_cons_of_mem _ hmem), hl, heq⟩

end Writes

end Layout

open Layout

/-! ### Blocks that are well formed -/

/-- Lines in which each block stands under a line that ends in a colon, and is not empty. -/
inductive Nested : List (List Char) → Prop
  | line {l : List Char} (hl : ¬IsMark l) : Nested [l]
  | block {l : List Char} {inner : List (List Char)} (hl : ¬IsMark l)
      (hcolon : l.getLast? = some ':') (hinner : Nested inner) :
      Nested (l :: Line.opening.chars :: inner ++ [Line.closing.chars])
  | append {ls ls' : List (List Char)} (h : Nested ls) (h' : Nested ls') : Nested (ls ++ ls')

namespace Nested

variable {ls : List (List Char)}

/-- The first line is no mark, and the last one opens no block. -/
theorem ends (h : Nested ls) : (∃ l rest, ls = l :: rest ∧ ¬IsMark l) ∧
    ∃ front l, ls = front ++ [l] ∧ l ≠ Line.opening.chars := by
  induction h with
  | @line l hl => exact ⟨⟨l, [], rfl, hl⟩, [], l, rfl, fun h => hl (.inl h)⟩
  | @block l inner hl => exact ⟨⟨l, _, rfl, hl⟩, _, _, rfl, by decide⟩
  | @append ls ls' _ _ ih ih' =>
    obtain ⟨⟨l, rest, rfl, hl⟩, -⟩ := ih
    obtain ⟨-, front, l', rfl, hl'⟩ := ih'
    exact ⟨⟨l, _, rfl, hl⟩, _, l', (List.append_assoc ..).symm, hl'⟩

/-- What two lines have to do with each other, the second right behind the first. -/
def Adjoins (l l' : List Char) : Prop :=
  (l' = Line.opening.chars → l.getLast? = some ':') ∧ (l = Line.opening.chars → ¬IsMark l')

theorem isChain_adjoins (h : Nested ls) : ls.IsChain Adjoins := by
  have hmarks : Line.closing.chars ≠ Line.opening.chars := by decide
  -- lines that are nested can follow each other and can be followed by the end of a block
  have hbehind {ls ls' : List (List Char)} (h : Nested ls)
      (h' : ∀ l ∈ ls'.head?, l ≠ Line.opening.chars) :
      ∀ l ∈ ls.getLast?, ∀ l' ∈ ls'.head?, Adjoins l l' := by
    obtain ⟨-, front, last, rfl, hlast⟩ := h.ends
    intro l hl l' hl'
    rw [List.getLast?_concat] at hl
    cases hl
    exact ⟨fun heq => absurd heq (h' l' hl'), fun heq => absurd heq hlast⟩
  induction h with
  | line hl => exact .singleton _
  | @block l inner hl hcolon hinner ih =>
    obtain ⟨⟨first, rest, rfl, hfirst⟩, -⟩ := hinner.ends
    rw [List.cons_append, List.cons_append, List.cons_append, List.isChain_cons_cons,
      List.isChain_cons_cons]
    refine ⟨⟨fun _ => hcolon, fun heq => absurd (.inl heq) hl⟩,
      ⟨fun heq => absurd (.inl heq) hfirst, fun _ => hfirst⟩, ?_⟩
    refine List.isChain_append.mpr ⟨ih, .singleton _, hbehind hinner ?_⟩
    intro l hl
    cases hl
    exact hmarks
  | append h h' ih ih' =>
    obtain ⟨⟨first, rest, rfl, hfirst⟩, -⟩ := h'.ends
    refine List.isChain_append.mpr ⟨ih, ih', hbehind h ?_⟩
    intro l hl
    cases hl
    exact fun heq => hfirst (.inl heq)

/-- Along the lines no more blocks are closed than were opened, and all are in the end. -/
theorem count_le (h : Nested ls) :
    (∀ k, (ls.take k).count Line.closing.chars ≤ (ls.take k).count Line.opening.chars) ∧
      ls.count Line.closing.chars = ls.count Line.opening.chars := by
  have hmarks : Line.opening.chars ≠ Line.closing.chars := by decide
  induction h with
  | line hl =>
    obtain ⟨hopening, hclosing⟩ := not_or.mp hl
    refine ⟨fun k => ?_, ?_⟩
    · cases k with
      | zero => exact Nat.le_refl 0
      | succ k => simp [hopening, hclosing]
    · simp [hopening, hclosing]
  | @block l inner hl hcolon _ ih =>
    obtain ⟨hopening, hclosing⟩ := not_or.mp hl
    obtain ⟨ihtake, ihwhole⟩ := ih
    refine ⟨fun k => ?_, ?_⟩
    · match k with
      | 0 => exact Nat.le_refl 0
      | 1 => simp [hopening, hclosing]
      | k + 2 =>
        have hinner := ihtake k
        have hend : (([Line.closing.chars] : List (List Char)).take (k - inner.length)).count
            Line.closing.chars ≤ 1 := (List.take_sublist _ _).count_le _
        simp only [List.cons_append, List.take_succ_cons, List.take_append, List.count_cons,
          List.count_append, beq_iff_eq, hopening, hclosing, hmarks, if_true, if_false]
        omega
    · simp [List.count_append, hopening, hclosing, hmarks, hmarks.symm, ihwhole]
  | append _ _ ih ih' =>
    refine ⟨fun k => ?_, ?_⟩
    · rw [List.take_append, List.count_append, List.count_append]
      exact Nat.add_le_add (ih.1 k) (ih'.1 _)
    · rw [List.count_append, List.count_append, ih.2, ih'.2]

/-- Nested lines can be written inside any blocks. -/
theorem exists_writes (h : Nested ls) (n : Nat) : ∃ rows, Writes n ls rows := by
  induction h generalizing n with
  | line hl => exact ⟨_, .line hl (.nil n)⟩
  | block hl _ _ ih =>
    obtain ⟨rows, hrows⟩ := ih (n + 1)
    exact ⟨_, .line hl (.block hrows (.nil n))⟩
  | append _ _ ih ih' =>
    obtain ⟨rows, hrows⟩ := ih n
    obtain ⟨rows', hrows'⟩ := ih' n
    exact ⟨_, hrows.append hrows'⟩

end Nested

/-! ### Blocks of statements -/

theorem Nested.code {text : String} {c : Char} (h : c ∈ text.toList)
    (hc : c ∉ Line.closing.chars) : Nested ([Line.code text].map Line.chars) :=
  .line (not_isMark_of_mem h hc)

/-- A line with a body under it. -/
theorem Nested.under {text : String} {c : Char} {ls : List Line} (h : c ∈ text.toList)
    (hc : c ∉ Line.closing.chars) (hcolon : text.toList.getLast? = some ':')
    (hbody : Nested ((Line.body ls).map Line.chars)) :
    Nested ((Line.code text :: Line.block ls).map Line.chars) := by
  have hblock := Nested.block (not_isMark_of_mem h hc) hcolon hbody
  rw [Line.block_eq, List.map_cons, List.map_append, List.map_cons]
  exact hblock

mutual

/-- The blocks of a statement are nested, whatever names and numbers are in it. -/
theorem Statement.nested : (s : Statement) → Nested (s.lines.map Line.chars)
  | .assign target value => .code (c := '=') (by simp [toString]) (by decide)
  | .branch condition body =>
    .under (c := 'f') (by simp [toString]) (by decide) (by simp [toString, List.getLast?_cons])
      (Statement.body_nested body)
  | .choice condition body other => by
    have hbody : Nested ((.code s!"if {condition.text}:" ::
        Line.block (Statement.linesOf body)).map Line.chars) :=
      .under (c := 'f') (by simp [toString]) (by decide) (by simp [toString, List.getLast?_cons])
        (Statement.body_nested body)
    have hother : Nested ((.code "else:" :: Line.block (Statement.linesOf other)).map Line.chars) :=
      .under (c := 's') (by simp) (by decide) (by simp) (Statement.body_nested other)
    rw [Statement.lines, List.map_append]
    exact hbody.append hother
  | .each counter source body =>
    .under (c := 'f') (by simp [toString]) (by decide) (by simp [toString, List.getLast?_cons])
      (Statement.body_nested body)
  | .repetition body condition => by
    have hleave : Nested ((.code s!"if {condition.text}:" ::
        Line.block [.code "break"]).map Line.chars) :=
      .under (c := 'f') (by simp [toString]) (by decide) (by simp [toString, List.getLast?_cons])
        (.code (c := 'b') (by simp) (by decide))
    have hbody := (Statement.body_nested body).append hleave
    rw [← List.map_append, ← Line.body_of_ne_nil (List.append_ne_nil_of_right_ne_nil _ (by simp))]
      at hbody
    exact .under (c := 'w') (by simp) (by decide) (by simp) hbody
  | .procedure name parameters body =>
    .under (c := 'f') (by simp [toString]) (by decide) (by simp [toString, List.getLast?_cons])
      (Statement.body_nested body)
  | .result none => .code (c := 'r') (by simp) (by decide)
  | .result (some value) => .code (c := 'r') (by simp [toString]) (by decide)

/-- So are those of a body; an empty body is a line that does nothing. -/
theorem Statement.body_nested :
    (ss : List Statement) → Nested ((Line.body (Statement.linesOf ss)).map Line.chars)
  | [] => Nested.code (c := 'p') (by simp : 'p' ∈ "pass".toList) (by decide)
  | [s] => by
    rw [Statement.linesOf, Statement.linesOf, List.append_nil, Line.body_of_ne_nil s.lines_ne_nil]
    exact s.nested
  | s :: s' :: ss => by
    have hmore := Statement.body_nested (s' :: ss)
    rw [Line.body_of_ne_nil (Statement.linesOf_ne_nil (List.cons_ne_nil _ _))] at hmore ⊢
    rw [Statement.linesOf, List.map_append]
    exact s.nested.append hmore

end

/-! ### Code whose blocks are marked -/

/-- The blocks of marked lines are in order. -/
structure WellMarked (ls : List (List Char)) : Prop where
  /-- Only blocks that were opened are closed. -/
  sane : ∀ front, front <+: ls →
    front.count Line.closing.chars ≤ front.count Line.opening.chars
  /-- All blocks are closed. -/
  settled : ls.count Line.closing.chars = ls.count Line.opening.chars
  /-- A block is opened right behind a line that ends in a colon, and right before a line that is no
  mark. -/
  opened : ∀ front back, ls = front ++ Line.opening.chars :: back →
    (∃ l, front.getLast? = some l ∧ l.getLast? = some ':') ∧
      ∃ l, back.head? = some l ∧ ¬IsMark l
  /-- Where a block is closed, one is open. -/
  deep : ∀ front back, ls = front ++ Line.closing.chars :: back → 0 < depth front
  /-- At the end no block is open. -/
  level : depth ls = 0
  /-- No line has a tab of its own. -/
  plain : ∀ l ∈ ls, '\t' ∉ l

theorem Nested.wellMarked {ls : List (List Char)} (h : Nested ls) (hplain : ∀ l ∈ ls, '\t' ∉ l) :
    WellMarked ls := by
  have hsane (front : List (List Char)) (hfront : front <+: ls) :
      front.count Line.closing.chars ≤ front.count Line.opening.chars := by
    rw [List.prefix_iff_eq_take.mp hfront]
    exact h.count_le.1 _
  have hsettled := h.count_le.2
  refine ⟨hsane, hsettled, fun front back hls => ?_, fun front back hls => ?_, ?_, hplain⟩
  · subst hls
    obtain ⟨-, hbehind, hbefore⟩ := List.isChain_append.mp h.isChain_adjoins
    obtain ⟨⟨first, rest, hfirst, hmark⟩, before, last, hlast, hne⟩ := h.ends
    constructor
    · cases hfront : front.getLast? with
      | none =>
        rw [List.getLast?_eq_none_iff.mp hfront] at hfirst
        cases hfirst
        exact absurd (.inl rfl) hmark
      | some l => exact ⟨l, rfl, (hbefore l hfront _ rfl).1 rfl⟩
    · cases back with
      | nil =>
        obtain ⟨-, heq⟩ := List.append_inj' hlast rfl
        cases heq
        exact absurd rfl hne
      | cons l back =>
        exact ⟨l, rfl, (List.isChain_cons_cons.mp hbehind).1.2 rfl⟩
  · have hfront : front ++ [Line.closing.chars] <+: ls := ⟨back, by rw [hls]; simp⟩
    have hclosed := hsane _ hfront
    have hdepth := depth_add_count fun front' hfront' =>
      hsane front' (hfront'.trans ((List.prefix_append _ _).trans hfront))
    have hne : Line.closing.chars ≠ Line.opening.chars := by decide
    rw [List.count_append, List.count_append, List.count_singleton_self, List.count_singleton,
      if_neg (by simpa using hne)] at hclosed
    omega
  · have hdepth := depth_add_count hsane
    omega

/-- The lines of the text that lines are laid out as are the rows that they are written as. -/
theorem Lays.lines_resolved {ls : List Line} {cs : List Char} {rows : List (List Char)}
    (h : Lays 0 ls cs) (hrows : Writes 0 (ls.map Line.chars) rows) :
    Text.lines (Layout.resolved (String.join (ls.map Line.text))).toList = rows := by
  have hresolved := h.resolved
  generalize (Layout.resolved (String.join (ls.map Line.text))).toList = text at hresolved ⊢
  have hcs : cs = Text.unlines rows := by
    have hlaid := (h.laid []).symm.trans (hrows.laid [])
    exact List.append_cancel_right hlaid
  have hplain : ∀ row ∈ rows, '\n' ∉ row ∧ '\r' ∉ row := by
    intro row hrow
    obtain ⟨k, _, hmem, -, rfl⟩ := hrows.exists_line hrow
    obtain ⟨l, hl, rfl⟩ := List.mem_map.mp hmem
    have hprintable := h.printable l hl
    constructor
    all_goals
      intro hmem
      rcases List.mem_append.mp hmem with hmem | hmem
      · exact absurd (List.eq_of_mem_replicate hmem) (by decide)
      · exact absurd (hprintable _ (mem_squeezed.mp hmem)) (by decide)
  obtain ⟨before, c, hends, hc⟩ := h.ends
  obtain rfl : text = before ++ [c] := by
    refine List.append_cancel_right (hresolved.trans (hends.trans ?_))
    simp
  have hlast (d : Char) (hd : Text.isBlank d = true) : (before ++ [c]).getLast? ≠ some d := by
    rw [List.getLast?_concat]
    intro heq
    cases heq
    exact Bool.false_ne_true (hc.symm.trans hd)
  rw [← Text.lines_concat (by simp) (hlast _ (by decide)) (hlast _ (by decide)), hresolved, hcs,
    Text.lines_unlines hplain]

namespace Rendition

/-- The blocks of the code that words become are nested, its lines are written as those of the text
that it is laid out as, and their characters are printable. -/
theorem nested_ofTokens {source code : String} (h : (ofTokens (tokens source)).code = some code) :
    Nested (Text.lines code.toList) ∧
      Writes 0 (Text.lines code.toList) (Text.lines (resolved code).toList) ∧
      ∀ l ∈ Text.lines code.toList, ∀ c ∈ l, isPrintable c = true := by
  obtain ⟨hne, rfl⟩ := marked_eq_some_iff.mp h
  obtain ⟨cs, hlays⟩ := exists_lays_of_tokens hne
  have hnested := Statement.body_nested (readStatements [] (tokens source)).statements
  rw [Line.body_of_ne_nil (Statement.linesOf_ne_nil hne)] at hnested
  obtain ⟨rows, hrows⟩ := hnested.exists_writes 0
  rw [lines_join hlays.printable, hlays.lines_resolved hrows]
  exact ⟨hnested, hrows, List.forall_mem_map.mpr hlays.printable⟩

/-- The code that words become is well marked, and once its marks are resolved its lines are written
as the blocks around them say. -/
theorem wellMarked_ofTokens {source code : String}
    (h : (ofTokens (tokens source)).code = some code) :
    WellMarked (Text.lines code.toList) ∧
      Writes 0 (Text.lines code.toList) (Text.lines (resolved code).toList) := by
  obtain ⟨hnested, hwrites, hprintable⟩ := nested_ofTokens h
  refine ⟨hnested.wellMarked fun l hl htab => ?_, hwrites⟩
  exact absurd (hprintable l hl _ htab) (by decide)

/-- The statement in the loop cannot be read, and the loop has a line that does nothing in its place. -/
theorem wellMarked_ofTokens_skipped :
    let code := "while True:\nINDENT\npass\nif n:\nINDENT\nbreak\nUNINDENT\nUNINDENT\n"
    (ofTokens (tokens "repeat x <- * until n")).code = some code ∧
      WellMarked (Text.lines code.toList) ∧
      Writes 0 (Text.lines code.toList)
        (["while True:", "\tpass", "\tif n:", "\t\tbreak"].map String.toList) := by
  intro code
  have hcode : (ofTokens (tokens "repeat x <- * until n")).code = some code := by decide +kernel
  have hrows : Text.lines (resolved code).toList =
      ["while True:", "\tpass", "\tif n:", "\t\tbreak"].map String.toList := by decide +kernel
  obtain ⟨hmarked, hwrites⟩ := wellMarked_ofTokens hcode
  rw [hrows] at hwrites
  exact ⟨hcode, hmarked, hwrites⟩

end Rendition

end Growth.Pseudo
