import Growth.Proofs.Code.Gaps
import Mathlib.Data.List.TakeDrop

/-! Lines in blocks, and the tokens that say where blocks begin and end. After each line the scanner
is where it would be had it just opened the blocks around the next line, so lines and blocks can be
put together one after the other. -/

namespace Growth.Code

/-! ### Indentation -/

/-- The characters in front of a line inside `depth` blocks. -/
def indentation (unit : List Char) (depth : Nat) : List Char :=
  (List.replicate depth unit).flatten

/-- A line inside `depth` blocks is as wide as `depth` times the width of `unit`. -/
structure Indents (unit : List Char) (width : Nat) : Prop where
  pos : 0 < width
  margin : ∀ depth c cs, startsToken c = true →
    Code.margin 0 false (indentation unit depth ++ c :: cs) =
      (indentation unit depth, some (depth * width))

theorem indents_of_blanks {unit : List Char} {width : Nat} (hpos : 0 < width)
    (hunit : ∀ n rest, margin (n * width) false (unit ++ rest) =
      (unit ++ (margin ((n + 1) * width) false rest).1, (margin ((n + 1) * width) false rest).2)) :
    Indents unit width := by
  have hmargin : ∀ depth n c cs, startsToken c = true →
      margin (n * width) false (indentation unit depth ++ c :: cs) =
        (indentation unit depth, some ((n + depth) * width)) := by
    intro depth
    induction depth with
    | zero =>
      intro n c cs hc
      have hgap : Scanner.startsGap c = false := startsGap_of_startsToken hc
      simp only [Scanner.startsGap, isInlineBlank, Bool.or_eq_false_iff] at hgap
      simp [indentation, margin_cons, isInlineBlank, hgap]
    | succ depth ih =>
      intro n c cs hc
      rw [indentation, List.replicate_succ, List.flatten_cons, List.append_assoc, hunit]
      have hrest := ih (n + 1) c cs hc
      rw [indentation] at hrest
      rw [hrest, Nat.add_right_comm, Nat.add_assoc]
  refine ⟨hpos, fun depth c cs hc => ?_⟩
  simpa using hmargin depth 0 c cs hc

/-- Four spaces. -/
def fourSpaces : List Char :=
  [' ', ' ', ' ', ' ']

theorem indents_fourSpaces : Indents fourSpaces 4 := by
  refine indents_of_blanks (by decide) fun n rest => ?_
  simp [fourSpaces, margin_cons, isInlineBlank, widened, Nat.add_mul]

/-- A tab is as wide as eight spaces. -/
theorem indents_tab : Indents ['\t'] 8 := by
  refine indents_of_blanks (by decide) fun n rest => ?_
  have hwide : widened (n * 8) '\t' = (n + 1) * 8 := by
    simp [widened, Nat.add_mul]
  simp [margin_cons, isInlineBlank, hwide]

/-- The widths of `depth` open blocks. -/
def openWidths (width : Nat) : Nat → List Nat
  | 0 => []
  | depth + 1 => (depth + 1) * width :: openWidths width depth

theorem openWidths_headD (width depth : Nat) : (openWidths width depth).headD 0 = depth * width := by
  cases depth <;> simp [openWidths]

/-- A line inside `depth'` blocks leaves as many blocks open. -/
theorem openWidths_dropWhile {width depth' : Nat} (hw : 0 < width) :
    (depth : Nat) → depth' ≤ depth →
      (openWidths width depth).dropWhile (depth' * width < ·) = openWidths width depth'
  | 0, h => by
    obtain rfl := Nat.le_zero.mp h
    rfl
  | depth + 1, h => by
    rcases Nat.lt_or_eq_of_le h with hlt | rfl
    · have hwide : depth' * width < (depth + 1) * width := Nat.mul_lt_mul_of_pos_right hlt hw
      rw [openWidths, List.dropWhile_cons_of_pos (by simpa using hwide),
        openWidths_dropWhile hw depth (Nat.lt_succ_iff.mp hlt)]
    · rw [openWidths, List.dropWhile_cons_of_neg (by simp)]

/-! ### Outlines -/

/-- A line, the kinds of its tokens, and the block under it. -/
inductive Outline where
  | line (content : List Char) (kinds : List Kind) (block : List Outline)

namespace Outline

mutual

/-- An outline as text inside `depth` blocks, before `rest`, which begins with the end of the last
line. -/
def text (unit : List Char) (depth : Nat) (rest : List Char) : Outline → List Char
  | line content _ block =>
    indentation unit depth ++ content ++ Outline.under unit (depth + 1) rest block

/-- Outlines as text after a line. -/
def under (unit : List Char) (depth : Nat) (rest : List Char) : List Outline → List Char
  | [] => rest
  | o :: os => '\n' :: o.text unit depth (Outline.under unit depth rest os)

end

mutual

/-- The kinds of the tokens of an outline. -/
def kinds : Outline → List Kind
  | line _ ks block =>
    ks ++ .newline :: if block.isEmpty then [] else .indent :: Outline.kindsOf block ++ [.dedent]

/-- The kinds of the tokens of outlines, one after the other. -/
def kindsOf : List Outline → List Kind
  | [] => []
  | o :: os => o.kinds ++ Outline.kindsOf os

end

mutual

/-- The lines are scanned as the kinds that they are said to have. -/
def Sound : Outline → Prop
  | line content ks block =>
    (Opens content ∧ ks ≠ [] ∧ Scans (Follows false) [] content ks []) ∧ Outline.AllSound block

/-- All of the outlines are sound. -/
def AllSound : List Outline → Prop
  | [] => True
  | o :: os => o.Sound ∧ Outline.AllSound os

end

end Outline

/-! ### Lines -/

/-- `n` lines with nothing in them. -/
def blankLines (n : Nat) : List Char :=
  List.replicate n '\n'

/-- After some blank lines the text is empty, or begins with a line inside at most `depth` blocks. -/
def Fits (unit : List Char) (depth : Nat) (rest : List Char) : Prop :=
  ∃ n rest', rest = blankLines n ++ rest' ∧ (rest' = [] ∨ ∃ depth' c cs, depth' ≤ depth ∧
    startsToken c = true ∧ rest' = indentation unit depth' ++ c :: cs)

theorem Fits.line {unit : List Char} {depth : Nat} {c : Char} (hc : startsToken c = true)
    (cs : List Char) : Fits unit depth (indentation unit depth ++ c :: cs) :=
  ⟨0, _, rfl, .inr ⟨depth, c, cs, Nat.le_refl depth, hc, rfl⟩⟩

theorem Fits.blank {unit : List Char} {depth : Nat} {rest : List Char} (h : Fits unit depth rest)
    (n : Nat) : Fits unit depth (blankLines n ++ rest) := by
  obtain ⟨m, rest', rfl, hrest⟩ := h
  refine ⟨n + m, rest', ?_, hrest⟩
  rw [blankLines, blankLines, blankLines, ← List.append_assoc, List.replicate_append_replicate]

theorem Fits.nil {unit : List Char} {depth : Nat} : Fits unit depth [] :=
  ⟨0, [], rfl, .inl rfl⟩

/-- A line ends before the text, and what comes after it is inside at most `depth` blocks. -/
def EndsLine (unit : List Char) (depth : Nat) (rest : List Char) : Prop :=
  rest = [] ∨ ∃ rest', rest = '\n' :: rest' ∧ Fits unit depth rest'

namespace Scanner

/-- The scanner is at the beginning of a line before `rest`, with the blocks that are open. -/
structure Starts (s : Scanner) (widths : List Nat) (rest : List Char) : Prop where
  rest : s.rest = rest
  brackets : s.brackets = []
  widths : s.widths = widths
  pending : s.pending = []
  atLineStart : s.atLineStart = true
  lineHasTokens : s.lineHasTokens = false
  finished : s.finished = false

/-- After the characters in front of a line. -/
def skipMargin (s : Scanner) (chars : List Char) : Scanner :=
  { s.skip chars with atLineStart := false }

variable {s : Scanner} {ws : List Nat} {rest : List Char}

theorem Starts.next_line (h : s.Starts ws rest) {chars : List Char} {width : Nat}
    (hm : margin 0 false rest = (chars, some width)) :
    s.next = (s.skipMargin chars).indented width := by
  simp [Scanner.next, deliver, h.pending, h.finished, h.atLineStart, h.rest, hm, skipMargin]

theorem finish_of_no_tokens (h : s.lineHasTokens = false) :
    s.finish = { s.close s.widths with widths := [], finished := true }.deliver fun s =>
      (.ok (s.emptyToken .endOfFile), s) := by
  unfold finish
  dsimp only
  rw [if_neg (by simp [close, h])]

/-- The end of the text closes all blocks. -/
theorem Starts.next_end (h : s.Starts ws []) :
    s.next = { (s.skipMargin []).close ws with widths := [], finished := true }.deliver fun s =>
      (.ok (s.emptyToken .endOfFile), s) := by
  have hfinish : s.next = (s.skipMargin []).finish := by
    simp [Scanner.next, deliver, h.pending, h.finished, h.atLineStart, h.rest, margin_nil, inLine,
      gap, skipMargin, skip, Place.after]
  have hws : (s.skipMargin []).widths = ws := h.widths
  rw [hfinish, finish_of_no_tokens (s := s.skipMargin []) h.lineHasTokens, hws]

/-- A line that is no wider than the innermost block closes blocks. -/
theorem indented_of_le {width : Nat} (h : s.widths.headD 0 ≥ width)
    (hleft : (s.widths.dropWhile (width < ·)).headD 0 = width) :
    s.indented width =
      { s.close (s.widths.takeWhile (width < ·)) with
        widths := s.widths.dropWhile (width < ·) }.deliver inLine := by
  rw [indented, if_neg (Nat.not_lt.mpr h), List.span_eq_takeWhile_dropWhile]
  dsimp only
  rw [if_pos hleft]

theorem Starts.inside {chars : List Char} (h : s.Starts ws (chars ++ rest)) :
    (s.skipMargin chars).Inside [] ws rest := by
  refine ⟨?_, h.brackets, h.widths, h.pending, rfl, h.finished⟩
  simp [skipMargin, skip, h.rest]

variable {unit : List Char} {width depth : Nat} {c : Char} {cs : List Char}

/-- A line in the innermost block begins at once. -/
theorem Starts.next_eq (h : s.Starts (openWidths width depth) (indentation unit depth ++ c :: cs))
    (hu : Indents unit width) (hc : startsToken c = true) :
    s.next = (s.skipMargin (indentation unit depth)).next := by
  have hws : (s.skipMargin (indentation unit depth)).widths = openWidths width depth := h.widths
  have htake : (openWidths width depth).takeWhile (depth * width < ·) = [] := by
    cases depth with
    | zero => rfl
    | succ depth => simp [openWidths]
  have hclose : { (s.skipMargin (indentation unit depth)).close [] with
      widths := openWidths width depth } = s.skipMargin (indentation unit depth) := by
    rw [← hws, close, List.map_nil, ← h.inside.pending]
  rw [h.next_line (hu.margin depth c cs hc), indented_of_le (by rw [hws, openWidths_headD])
    (by rw [hws, openWidths_dropWhile hu.pos depth (Nat.le_refl _), openWidths_headD]), hws,
    openWidths_dropWhile hu.pos depth (Nat.le_refl _), htake, hclose, h.inside.next, deliver,
    h.inside.pending]

/-- A line that is wider than the innermost block opens one. -/
theorem Starts.leads_indent
    (h : s.Starts (openWidths width depth) (indentation unit (depth + 1) ++ c :: cs))
    (hu : Indents unit width) (hc : startsToken c = true) :
    ∃ s', s.Leads [.indent] s' ∧
      s'.Starts (openWidths width (depth + 1)) (indentation unit (depth + 1) ++ c :: cs) := by
  have hws : (s.skipMargin (indentation unit (depth + 1))).widths = openWidths width depth :=
    h.widths
  have hwide : (openWidths width depth).headD 0 < (depth + 1) * width := by
    rw [openWidths_headD]
    exact Nat.mul_lt_mul_of_pos_right (Nat.lt_succ_self depth) hu.pos
  have hnext := h.next_line (hu.margin (depth + 1) c cs hc)
  rw [indented, hws, if_pos hwide] at hnext
  have hstarts : Starts { s with widths := openWidths width (depth + 1) }
      (openWidths width (depth + 1)) (indentation unit (depth + 1) ++ c :: cs) :=
    ⟨h.rest, h.brackets, rfl, h.pending, h.atLineStart, h.lineHasTokens, h.finished⟩
  refine ⟨_, ?_, hstarts⟩
  exact (Leads.of_next hnext nofun).trans (.of_next_eq (hstarts.next_eq hu hc).symm)

/-- At the end of a text that has been reported, what is pending is next, and then the end. -/
theorem next_of_finished (h : s.finished = true) :
    s.next = s.deliver fun s => (.ok (s.emptyToken .endOfFile), s) := by
  unfold Scanner.next deliver
  split
  · rfl
  · exact if_pos h

/-- In a line, what is pending is next, and then what stands in the line. -/
theorem next_in_line (hf : s.finished = false) (hl : s.atLineStart = false) :
    s.next = s.deliver inLine := by
  unfold Scanner.next deliver
  split
  · rfl
  · simp [hf, hl]

/-- The characters in front of a line are no tokens, but tell whether blocks begin or end there. -/
theorem Starts.next_margin (h : s.Starts ws rest) :
    s.next = match (margin 0 false rest).2 with
      | none => (s.skipMargin (margin 0 false rest).1).inLine
      | some width => (s.skipMargin (margin 0 false rest).1).indented width := by
  simp only [Scanner.next, deliver, h.pending, h.finished, h.atLineStart, h.rest, skipMargin]
  cases (margin 0 false rest).2 <;> rfl

/-- Characters in front of a line are passed without a token. -/
theorem Starts.leads_margin {chars : List Char} (h : s.Starts ws (chars ++ rest))
    (hmargin : margin 0 false (chars ++ rest) =
      (chars ++ (margin 0 false rest).1, (margin 0 false rest).2)) :
    s.Leads [] (s.skip chars) ∧ (s.skip chars).Starts ws rest := by
  have hstarts : (s.skip chars).Starts ws rest :=
    ⟨by simp [skip, h.rest], h.brackets, h.widths, h.pending, h.atLineStart, h.lineHasTokens,
      h.finished⟩
  have hskip (cs : List Char) : s.skipMargin (chars ++ cs) = (s.skip chars).skipMargin cs := by
    simp [skipMargin, skip, Place.after]
  refine ⟨.of_next_eq ?_, hstarts⟩
  rw [h.next_margin, hstarts.next_margin, ← hskip, hmargin]

/-- A line with nothing in it is passed without a token. -/
theorem Starts.leads_newline (h : s.Starts ws ('\n' :: rest)) :
    s.Leads [] (s.skip ['\n']) ∧ (s.skip ['\n']).Starts ws rest := by
  have h : s.Starts ws (['\n'] ++ rest) := h
  exact h.leads_margin (by simp [margin_cons])

theorem Starts.leads_blank {n : Nat} (h : s.Starts ws (blankLines n ++ rest)) :
    s.Leads [] (s.skip (blankLines n)) ∧ (s.skip (blankLines n)).Starts ws rest := by
  induction n generalizing s with
  | zero => exact ⟨.refl s, h⟩
  | succ n ih =>
    rw [blankLines, List.replicate_succ, List.cons_append] at h
    obtain ⟨hleads, hstarts⟩ := h.leads_newline
    obtain ⟨hleads', hstarts'⟩ := ih hstarts
    have hskip : s.skip (blankLines (n + 1)) = (s.skip ['\n']).skip (blankLines n) := by
      simp [blankLines, List.replicate_succ, skip, Place.after]
    rw [hskip]
    exact ⟨hleads.trans hleads', hstarts'⟩

/-- The innermost block is closed. -/
def leaveBlock (s : Scanner) : Scanner :=
  { s with widths := s.widths.tail }

theorem Starts.leaveBlock {w : Nat} (h : s.Starts (w :: ws) rest) : s.leaveBlock.Starts ws rest :=
  ⟨h.rest, h.brackets, congrArg List.tail h.widths, h.pending, h.atLineStart, h.lineHasTokens,
    h.finished⟩

/-- The end of the text closes the innermost block. -/
theorem Starts.leads_leaveBlock_end {w : Nat} (h : s.Starts (w :: ws) []) :
    s.Leads [.dedent] s.leaveBlock := by
  have hnext := h.next_end
  rw [close, List.map_cons, deliver] at hnext
  refine (Leads.of_next hnext (by rintro ⟨⟩)).trans (.of_next_eq ?_)
  rw [h.leaveBlock.next_end, next_of_finished rfl]
  rfl

/-- A line inside fewer blocks closes the innermost one. -/
theorem Starts.leads_leaveBlock_line {depth' : Nat}
    (h : s.Starts (openWidths width (depth + 1)) (indentation unit depth' ++ c :: cs))
    (hu : Indents unit width) (hc : startsToken c = true) (hle : depth' ≤ depth) :
    s.Leads [.dedent] s.leaveBlock := by
  have hmargin := hu.margin depth' c cs hc
  have hlt : depth' * width < (depth + 1) * width :=
    Nat.mul_lt_mul_of_pos_right (Nat.lt_succ_of_le hle) hu.pos
  have hleft := openWidths_dropWhile hu.pos depth hle
  have hleft' := openWidths_dropWhile hu.pos (depth + 1) (Nat.le_succ_of_le hle)
  have hws : (s.skipMargin (indentation unit depth')).widths = openWidths width (depth + 1) :=
    h.widths
  have hws' : (s.leaveBlock.skipMargin (indentation unit depth')).widths =
      openWidths width depth := h.leaveBlock.widths
  have hnext := h.next_line hmargin
  rw [indented_of_le (by rw [hws, openWidths_headD]; exact Nat.le_of_lt hlt)
    (by rw [hws, hleft', openWidths_headD]), hws, hleft', openWidths,
    List.takeWhile_cons_of_pos (by simpa using hlt), close, List.map_cons, deliver] at hnext
  have hnext' := h.leaveBlock.next_line hmargin
  rw [indented_of_le
    (by rw [hws', openWidths_headD]; exact Nat.mul_le_mul_right width hle)
    (by rw [hws', hleft, openWidths_headD]), hws', hleft] at hnext'
  refine (Leads.of_next hnext (by rintro ⟨⟩)).trans (.of_next_eq ?_)
  rw [hnext', next_in_line]
  · rfl
  · exact h.finished
  · rfl

/-- A line inside fewer blocks, or the end of the text, closes the innermost block. -/
theorem Starts.leads_dedent (h : s.Starts (openWidths width (depth + 1)) rest)
    (hu : Indents unit width) (hrest : Fits unit depth rest) :
    ∃ s', s.Leads [.dedent] s' ∧ s'.Starts (openWidths width depth) rest := by
  refine ⟨s.leaveBlock, ?_, h.leaveBlock⟩
  obtain ⟨n, rest', rfl, hrest⟩ := hrest
  -- Blank lines are passed with the block and without it.
  obtain ⟨hleads, hstarts⟩ := h.leads_blank
  obtain ⟨hleads', -⟩ := h.leaveBlock.leads_blank
  suffices hdedent : (s.skip (blankLines n)).Leads [.dedent] (s.skip (blankLines n)).leaveBlock from
    (hleads.trans hdedent).of_skipped hleads'
  rcases hrest with rfl | ⟨depth', c, cs, hle, hc, rfl⟩
  · exact hstarts.leads_leaveBlock_end
  · exact hstarts.leads_leaveBlock_line hu hc hle

/-- Where nothing is open any more, the end of the text comes last. -/
theorem Leads.tokens_of_end {s' : Scanner} {ks : List Kind} (h : s.Leads ks s')
    (hs : s'.Starts [] []) :
    ∃ ts, s.tokens = .ok ts ∧ ts.map Token.kind = ks ++ [Kind.endOfFile] := by
  obtain ⟨ts, rfl, htokens⟩ := h
  obtain ⟨t, ht, hend⟩ : ∃ t : Token, t.kind = .endOfFile ∧ s'.tokens = .ok [t] :=
    ⟨_, rfl, Scanner.tokens_of_end hs.next_end rfl⟩
  refine ⟨ts ++ [t], ?_, by simp [ht]⟩
  rw [htokens, hend]
  rfl

/-- At the end of the text the last line and all blocks are closed. -/
theorem Inside.next_end {bs : List Bracket} (h : s.Inside bs ws []) : s.next = s.finish := by
  have hskip : s.skip (gap (!s.brackets.isEmpty) .blanks s.rest) = s := by
    rw [h.rest, gap]
    rfl
  rw [h.next, inLine, hskip]
  simp only [h.rest]

/-- The end of a line is a token where no bracket is open. -/
theorem Inside.leads_lineEnd (h : s.Inside [] ws ('\n' :: rest)) :
    ∃ s', s.Leads [.newline] s' ∧ s'.Starts ws rest := by
  have hskip : s.skip (gap (!s.brackets.isEmpty) .blanks s.rest) = s := by
    rw [h.rest, h.brackets]
    rfl
  have hnext : s.next = (.ok ⟨.newline, s.place, (s.skip ['\n']).place.offset⟩,
      { s.skip ['\n'] with atLineStart := true, lineHasTokens := false }) := by
    rw [h.next, inLine, hskip]
    simp only [h.rest]
    rfl
  refine ⟨_, Leads.of_next hnext (by rintro ⟨⟩), ?_, h.brackets, h.widths, h.pending, rfl, rfl,
    h.finished⟩
  change s.rest.drop 1 = rest
  rw [h.rest]
  rfl

/-- After the last token of a line comes its end, written or not. -/
theorem Inside.leads_newline (h : s.Inside [] ws rest) (ht : s.lineHasTokens = true)
    (hrest : rest = [] ∨ ∃ rest', rest = '\n' :: rest') :
    ∃ s', s.Leads [.newline] s' ∧ s'.Starts ws rest.tail := by
  rcases hrest with rfl | ⟨rest', rfl⟩
  · have hstarts : Starts { s with atLineStart := true, lineHasTokens := false } ws [] :=
      ⟨h.rest, h.brackets, h.widths, h.pending, rfl, rfl, h.finished⟩
    have hnext : s.next = (.ok (s.emptyToken .newline),
        { s.close ws with widths := [], finished := true, lineHasTokens := false }) := by
      rw [h.next_end, finish, h.widths]
      dsimp only
      rw [if_pos (by simp [close, ht])]
      rfl
    refine ⟨_, (Leads.of_next hnext (by rintro ⟨⟩)).trans (.of_next_eq ?_), hstarts⟩
    rw [hstarts.next_end, next_of_finished rfl, close, h.atLineStart]
    rfl
  · exact h.leads_lineEnd

end Scanner

/-! ### Whole outlines -/

namespace Outline

variable {unit : List Char} {width : Nat}

theorem text_eq (depth : Nat) (rest : List Char) (o : Outline) (h : o.Sound) :
    ∃ c cs, startsToken c = true ∧ o.text unit depth rest = indentation unit depth ++ c :: cs := by
  obtain ⟨content, ks, block⟩ := o
  rw [Sound] at h
  obtain ⟨⟨⟨c, cs, rfl, hc⟩, -, -⟩, -⟩ := h
  exact ⟨c, _, hc, by rw [text, List.append_assoc, List.cons_append]⟩

theorem tail_under (depth : Nat) (rest : List Char) (os : List Outline) (hne : os ≠ [])
    (h : AllSound os) : ∃ c cs, startsToken c = true ∧
      (under unit depth rest os).tail = indentation unit depth ++ c :: cs := by
  cases os with
  | nil => exact absurd rfl hne
  | cons o os =>
    rw [under, List.tail_cons]
    exact o.text_eq depth _ h.1

/-- Outlines end the line before them. -/
theorem endsLine_under {depth : Nat} {rest : List Char} (hrest : EndsLine unit depth rest) :
    (os : List Outline) → AllSound os → EndsLine unit depth (under unit depth rest os)
  | [], _ => by
    rw [under]
    exact hrest
  | o :: os, h => by
    rw [under]
    obtain ⟨c, cs, hc, htext⟩ := o.text_eq depth (under unit depth rest os) h.1
    exact .inr ⟨_, rfl, htext ▸ .line hc cs⟩

end Outline

theorem Fits.mono {unit rest : List Char} {depth depth' : Nat} (h : Fits unit depth rest)
    (hle : depth ≤ depth') : Fits unit depth' rest := by
  obtain ⟨n, rest', hrest, hline⟩ := h
  refine ⟨n, rest', hrest, hline.imp_right ?_⟩
  rintro ⟨d, c, cs, hd, hc, hrest⟩
  exact ⟨d, c, cs, Nat.le_trans hd hle, hc, hrest⟩

theorem EndsLine.mono {unit rest : List Char} {depth depth' : Nat} (h : EndsLine unit depth rest)
    (hle : depth ≤ depth') : EndsLine unit depth' rest := by
  rcases h with rfl | ⟨rest', rfl, hfits⟩
  · exact .inl rfl
  · exact .inr ⟨rest', rfl, hfits.mono hle⟩

theorem EndsLine.fits_tail {unit rest : List Char} {depth : Nat} (h : EndsLine unit depth rest) :
    Fits unit depth rest.tail := by
  rcases h with rfl | ⟨rest', rfl, hfits⟩
  · exact .nil
  · exact hfits

theorem EndsLine.newline {unit rest : List Char} {depth : Nat} (h : EndsLine unit depth rest) :
    rest = [] ∨ ∃ rest', rest = '\n' :: rest' := by
  rcases h with rfl | ⟨rest', rfl, -⟩
  · exact .inl rfl
  · exact .inr ⟨rest', rfl⟩

theorem EndsLine.follows {unit rest : List Char} {depth : Nat} (h : EndsLine unit depth rest)
    (dot : Bool) : Follows dot rest := by
  rcases h.newline with rfl | ⟨rest', rfl⟩
  · exact .nil dot
  · exact .cons (by decide) _ _

namespace Outline

variable {unit : List Char} {width : Nat}

theorem leads_content (hu : Indents unit width) {content : List Char} {ks : List Kind}
    (hopens : Opens content) (hks : ks ≠ []) (hscans : Scans (Follows false) [] content ks [])
    {depth : Nat} {rest : List Char} (hrest : EndsLine unit (depth + 1) rest) {s : Scanner}
    (h : s.Starts (openWidths width depth) (indentation unit depth ++ content ++ rest)) :
    ∃ s', s.Leads (ks ++ [Kind.newline]) s' ∧ s'.Starts (openWidths width depth) rest.tail := by
  obtain ⟨c, cs, rfl, hc⟩ := hopens
  rw [List.append_assoc, List.cons_append] at h
  obtain ⟨s₁, hleads₁, hinside₁, htokens₁⟩ := hscans _ _ rest h.inside (hrest.follows false)
  obtain ⟨s₂, hleads₂, hstarts₂⟩ := hinside₁.leads_newline (by simp [htokens₁, hks]) hrest.newline
  exact ⟨s₂, (Scanner.Leads.of_next_eq (h.next_eq hu hc)).trans (hleads₁.trans hleads₂), hstarts₂⟩

mutual

/-- An outline is scanned as its kinds, and leaves the blocks around it as they were. -/
theorem leads (hu : Indents unit width) {depth : Nat} {rest : List Char} {s : Scanner} :
    (o : Outline) → o.Sound → EndsLine unit depth rest →
      s.Starts (openWidths width depth) (o.text unit depth rest) →
      ∃ s', s.Leads o.kinds s' ∧ s'.Starts (openWidths width depth) rest.tail
  | line content ks block, hsound, hrest, h => by
    rw [Sound] at hsound
    obtain ⟨⟨hopens, hks, hscans⟩, hblock⟩ := hsound
    have hunder := endsLine_under (hrest.mono (Nat.le_succ depth)) block hblock
    rw [text] at h
    obtain ⟨s₁, hleads₁, hstarts₁⟩ := leads_content hu hopens hks hscans hunder h
    by_cases hempty : block = []
    · subst hempty
      exact ⟨s₁, by simpa [kinds] using hleads₁, hstarts₁⟩
    · obtain ⟨c, cs, hc, htext⟩ := tail_under (depth + 1) rest block hempty hblock
      rw [htext] at hstarts₁
      obtain ⟨s₂, hleads₂, hstarts₂⟩ := hstarts₁.leads_indent hu hc
      rw [← htext] at hstarts₂
      obtain ⟨s₃, hleads₃, hstarts₃⟩ :=
        leads_all hu block hempty hblock (hrest.mono (Nat.le_succ depth)) hstarts₂
      obtain ⟨s₄, hleads₄, hstarts₄⟩ := hstarts₃.leads_dedent hu hrest.fits_tail
      refine ⟨s₄, ?_, hstarts₄⟩
      simpa [kinds, hempty] using hleads₁.trans (hleads₂.trans (hleads₃.trans hleads₄))

theorem leads_all (hu : Indents unit width) {depth : Nat} {rest : List Char} {s : Scanner} :
    (os : List Outline) → os ≠ [] → AllSound os → EndsLine unit depth rest →
      s.Starts (openWidths width depth) (under unit depth rest os).tail →
      ∃ s', s.Leads (kindsOf os) s' ∧ s'.Starts (openWidths width depth) rest.tail
  | [], hne, _, _, _ => absurd rfl hne
  | o :: os, _, hsound, hrest, h => by
    rw [under, List.tail_cons] at h
    obtain ⟨s₁, hleads₁, hstarts₁⟩ :=
      leads hu o hsound.1 (endsLine_under hrest os hsound.2) h
    by_cases hempty : os = []
    · subst hempty
      exact ⟨s₁, by simpa [kindsOf] using hleads₁, hstarts₁⟩
    · obtain ⟨s₂, hleads₂, hstarts₂⟩ := leads_all hu os hempty hsound.2 hrest hstarts₁
      exact ⟨s₂, by rw [kindsOf]; exact hleads₁.trans hleads₂, hstarts₂⟩

end

/-- The tokens of a text of lines in blocks; the last line may have an end or none. -/
theorem tokens_of_outlines (hu : Indents unit width) {os : List Outline} (hne : os ≠ [])
    (hsound : AllSound os) {rest : List Char} (hrest : rest = [] ∨ rest = ['\n']) :
    ∃ ts, tokens (String.ofList (under unit 0 rest os).tail) = .ok ts ∧
      ts.map Token.kind = kindsOf os ++ [Kind.endOfFile] := by
  have hends : EndsLine unit 0 rest := by
    rcases hrest with rfl | rfl
    · exact .inl rfl
    · exact .inr ⟨[], rfl, .nil⟩
  have hstarts : (Scanner.ofText (String.ofList (under unit 0 rest os).tail)).Starts
      (openWidths width 0) (under unit 0 rest os).tail :=
    ⟨String.toList_ofList, rfl, rfl, rfl, rfl, rfl, rfl⟩
  obtain ⟨s', hleads, hstarts'⟩ := leads_all hu os hne hsound hends hstarts
  have htail : rest.tail = [] := by
    rcases hrest with rfl | rfl <;> rfl
  rw [htail] at hstarts'
  exact hleads.tokens_of_end hstarts'

/-- The tokens of a text of one line without an end. -/
theorem tokens_of_line {content : List Char} {ks : List Kind} (hopens : Opens content)
    (hks : ks ≠ []) (hscans : Scans (Follows false) [] content ks []) :
    ∃ ts, tokens (String.ofList content) = .ok ts ∧
      ts.map Token.kind = ks ++ [Kind.newline, .endOfFile] := by
  have hsound : AllSound [.line content ks []] := by
    simp only [AllSound, Sound, and_true]
    exact ⟨hopens, hks, hscans⟩
  have htext : (under fourSpaces 0 [] [.line content ks []]).tail = content := by
    simp [under, text, indentation]
  obtain ⟨ts, htokens, hkinds⟩ :=
    tokens_of_outlines indents_fourSpaces (List.cons_ne_nil _ _) hsound (.inl rfl)
  rw [htext] at htokens
  refine ⟨ts, htokens, ?_⟩
  simpa [kindsOf, kinds] using hkinds

end Outline

end Growth.Code
