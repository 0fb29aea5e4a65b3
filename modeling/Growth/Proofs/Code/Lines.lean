import Growth.Proofs.Code.Words

/-! A text is scanned line by line. All that a line leaves behind for the next one is the widths of
the open blocks and, where the line goes on, the open brackets and whether it has a token. -/

namespace Growth.Code

/-! ### From line to line -/

/-- Where a line is read. -/
inductive Stand where
  /-- At its beginning, inside blocks of the widths. -/
  | starting (widths : List Nat)
  /-- Behind a line that goes on. -/
  | inside (brackets : List Bracket) (widths : List Nat) (hasTokens : Bool)

/-- How far the blanks indent a line. -/
def level (blanks : List Char) : Nat :=
  blanks.foldl widened 0

/-- A line without a token. -/
def tokenless (line : List Char) : Bool :=
  (line.dropWhile isInlineBlank).head?.all (· == '#')

/-- The blocks that begin or end in front of a line, and the widths of those that are open then. -/
def moved (ws : List Nat) (width : Nat) : Except ScanError (List Kind × List Nat) :=
  if ws.headD 0 < width then .ok ([.indent], width :: ws)
  else if (ws.dropWhile (width < ·)).headD 0 = width then
    .ok ((ws.takeWhile (width < ·)).map fun _ => .dedent, ws.dropWhile (width < ·))
  else .error (.invalidDedent 0 0)

/-- The words of a line and its end, if it is one, and where the next line is read. -/
def Words.behind (ended : Bool) (ws : List Nat) (hasTokens : Bool) (r : Words) :
    List Kind × Stand :=
  if ended && !r.continued && r.brackets.isEmpty then (r.kinds ++ [.newline], .starting ws)
  else (r.kinds, .inside r.brackets ws (hasTokens || !r.kinds.isEmpty))

/-- The kinds of the tokens of a line, and where the next line is read. -/
def Stand.read (ended : Bool) (line : List Char) : Stand → Except ScanError (List Kind × Stand)
  | starting ws =>
    if tokenless line then .ok ([], starting ws)
    else
      (moved ws (level (line.takeWhile isInlineBlank))).bind fun m =>
        ((words ended [] (line.dropWhile isInlineBlank)).map (Words.behind ended m.2 false)).map
          (Prod.map (m.1 ++ ·) id)
  | inside bs ws hasTokens => (words ended bs line).map (Words.behind ended ws hasTokens)

/-- The kinds of the tokens at the end of a text. -/
def Stand.closing : Stand → List Kind
  | starting ws => ws.map (fun _ => .dedent) ++ [.endOfFile]
  | inside _ ws hasTokens =>
    (if hasTokens then [.newline] else []) ++ ws.map (fun _ => .dedent) ++ [.endOfFile]

/-- The kinds of the tokens of lines. All of them but the last are ended. -/
def Stand.kinds (σ : Stand) : List (List Char) → Except ScanError (List Kind)
  | [] => .ok σ.closing
  | line :: lines =>
    (σ.read (!lines.isEmpty) line).bind fun r => (r.2.kinds lines).map (r.1 ++ ·)

/-! ### The characters in front of a line -/

theorem margin_lineOver {tail : List Char} (h : LineOver tail) (width : Nat) :
    margin width false tail = margin 0 false tail := by
  obtain rfl | ⟨more, rfl⟩ := lineOver_cases h
  · rfl
  · rw [margin_newline, margin_newline]

theorem margin_blanks {blanks : List Char} (h : ∀ c ∈ blanks, isInlineBlank c = true)
    (width : Nat) (cs : List Char) : margin width false (blanks ++ cs) =
      (blanks ++ (margin (blanks.foldl widened width) false cs).1,
        (margin (blanks.foldl widened width) false cs).2) := by
  induction blanks generalizing width with
  | nil => rfl
  | cons c blanks ih =>
    rw [List.forall_mem_cons] at h
    rw [List.cons_append, margin_blank h.1, ih h.2]
    rfl

/-- A line without a token is passed. -/
theorem margin_tokenless {line tail : List Char} (h : tokenless line = true) (hline : '\n' ∉ line)
    (htail : LineOver tail) : margin 0 false (line ++ tail) =
      (line ++ (margin 0 false tail).1, (margin 0 false tail).2) := by
  have hblanks : ∀ c ∈ line.takeWhile isInlineBlank, isInlineBlank c = true :=
    fun _ hc => List.mem_takeWhile_imp hc
  rw [tokenless] at h
  rw [← List.takeWhile_append_dropWhile (p := isInlineBlank) (l := line)] at hline ⊢
  rw [List.append_assoc, margin_blanks hblanks]
  cases hbody : line.dropWhile isInlineBlank with
  | nil => simp [margin_lineOver htail]
  | cons c body =>
    rw [hbody] at h hline
    obtain rfl : c = '#' := by simpa using h
    have hcomment : '\n' ∉ body := fun hmem =>
      hline (List.mem_append_right _ (List.mem_cons_of_mem _ hmem))
    rw [List.cons_append, margin_comment hcomment htail, margin_lineOver htail]
    simp

/-- In front of a line with a token the blanks are passed, and they indent it. -/
theorem margin_of_not_tokenless {line : List Char} (h : tokenless line = false)
    (hline : '\n' ∉ line) (tail : List Char) : margin 0 false (line ++ tail) =
      (line.takeWhile isInlineBlank, some (level (line.takeWhile isInlineBlank))) := by
  have hblanks : ∀ c ∈ line.takeWhile isInlineBlank, isInlineBlank c = true :=
    fun _ hc => List.mem_takeWhile_imp hc
  rw [tokenless] at h
  conv_lhs => rw [← List.takeWhile_append_dropWhile (p := isInlineBlank) (l := line)]
  rw [List.append_assoc, margin_blanks hblanks]
  cases hbody : line.dropWhile isInlineBlank with
  | nil =>
    rw [hbody] at h
    cases h
  | cons c body =>
    rw [hbody] at h
    have hne : c ≠ '\n' := by
      rintro rfl
      exact hline ((List.dropWhile_suffix _).subset (hbody ▸ List.mem_cons_self))
    have hblank : isInlineBlank c = false := by
      simpa [hbody] using List.head?_dropWhile_not isInlineBlank line
    rw [List.cons_append, margin_of_ne hne (by simpa using h) hblank]
    simp [level]

/-! ### The scanner from line to line -/

namespace Scanner

variable {s : Scanner} {ws : List Nat} {bs : List Bracket} {hasTokens : Bool}
  {line rest tail chars : List Char} {σ : Stand}

/-- The scanner is where the text from here on is read. -/
def Stands (s : Scanner) (rest : List Char) : Stand → Prop
  | .starting ws => s.Starts ws rest
  | .inside bs ws hasTokens => s.Inside bs ws rest ∧ s.lineHasTokens = hasTokens

/-- The scanner finds what is said to be in the line, and comes to where the next one is read. -/
def Reads (s : Scanner) (tail : List Char) : Except ScanError (List Kind × Stand) → Prop
  | .error e => s.kinds = .error e
  | .ok r => ∃ s', s.Leads r.1 s' ∧ s'.Stands tail.tail r.2

theorem Reads.of_leads {a : Scanner} {ks : List Kind} {r : Except ScanError (List Kind × Stand)}
    (h : a.Reads tail r) (hleads : s.Leads ks a) :
    s.Reads tail (r.map (Prod.map (ks ++ ·) id)) := by
  cases r with
  | error e => exact hleads.kinds_of_error h
  | ok r =>
    obtain ⟨s', hleads', hstands⟩ := h
    exact ⟨s', hleads.trans hleads', hstands⟩

/-- Behind the words of a line comes the next line, or the end of the text. -/
theorem Finds.reads {r : Except ScanError Words} (h : s.Finds ws tail r)
    (ht : s.lineHasTokens = hasTokens) (htail : LineOver tail) :
    s.Reads tail (r.map (Words.behind (!tail.isEmpty) ws hasTokens)) := by
  subst ht
  cases r with
  | error e => exact h
  | ok r =>
    obtain ⟨ks, bs, continued⟩ := r
    obtain ⟨s', hleads, hinside, ht⟩ := h
    obtain rfl | ⟨more, rfl⟩ := lineOver_cases htail
    · exact ⟨s', hleads, by simpa using hinside, ht⟩
    cases continued with
    | true => exact ⟨s', hleads, hinside, ht⟩
    | false =>
      have hinside : s'.Inside bs ws ('\n' :: more) := hinside
      -- The end of the line is a token, and another line begins, only where no bracket is open.
      cases bs with
      | nil =>
        obtain ⟨s'', hleads', hstarts⟩ := hinside.leads_lineEnd
        exact ⟨_, hleads.trans hleads', hstarts⟩
      | cons b bs =>
        have hinside : s'.Inside (b :: bs) ws (['\n'] ++ more) := hinside
        have hleads' : s'.Leads [] (s'.skip ['\n']) := hinside.leads_gap (gap_newline more)
        refine ⟨s'.skip ['\n'], ?_, hinside.skip, ht⟩
        have hleads := hleads.trans hleads'
        rw [List.append_nil] at hleads
        exact hleads

/-- The ends of blocks that are pending come first. -/
theorem leads_dedents {t : Token} (ht : t.kind = .dedent) {blocks : List Nat}
    (hs : s.pending = blocks.map fun _ => t) :
    s.Leads (blocks.map fun _ => .dedent) { s with pending := [] } := by
  induction blocks generalizing s with
  | nil =>
    have hsame : { s with pending := [] } = s := by rw [← show s.pending = [] from hs]
    rw [hsame]
    exact .refl s
  | cons w blocks ih =>
    have hnext : s.next = (.ok t, { s with pending := blocks.map fun _ => t }) := by
      rw [Scanner.next, deliver, hs]
      rfl
    have hfirst := Leads.of_next hnext (by simp [ht])
    rw [ht] at hfirst
    exact hfirst.trans (ih rfl)

/-- The scanner finds the blocks that are said to begin or end in front of a line, and comes to the
line. -/
def Enters (s : Scanner) (rest : List Char) (hasTokens : Bool) :
    Except ScanError (List Kind × List Nat) → Prop
  | .error e => s.kinds = .error e
  | .ok m => ∃ s', s.Leads m.1 s' ∧ s'.Inside [] m.2 rest ∧ s'.lineHasTokens = hasTokens

/-- In front of a line blocks begin or end as its width says. -/
theorem Inside.enters_moved {a : Scanner} {width : Nat} (h : a.Inside [] ws rest)
    (hnext : s.next = a.indented width) : s.Enters rest a.lineHasTokens (moved ws width) := by
  have hws := h.widths
  subst hws
  by_cases hopen : a.widths.headD 0 < width
  · rw [indented, if_pos hopen] at hnext
    rw [moved, if_pos hopen]
    exact ⟨_, .of_next hnext (by rintro ⟨⟩),
      ⟨h.rest, h.brackets, rfl, h.pending, h.atLineStart, h.finished⟩, rfl⟩
  by_cases hleft : (a.widths.dropWhile (width < ·)).headD 0 = width
  · rw [indented_of_le (Nat.not_lt.mp hopen) hleft] at hnext
    rw [moved, if_neg hopen, if_pos hleft]
    have hnext' := hnext.trans (next_in_line ?_ ?_).symm
    · exact ⟨_, (Leads.of_next_eq hnext').trans (leads_dedents rfl rfl),
        ⟨h.rest, h.brackets, rfl, rfl, h.atLineStart, h.finished⟩, rfl⟩
    · exact h.finished
    · exact h.atLineStart
  · rw [indented, if_neg hopen, List.span_eq_takeWhile_dropWhile] at hnext
    dsimp only at hnext
    rw [if_neg hleft] at hnext
    rw [moved, if_neg hopen, if_neg hleft]
    exact kinds_of_error hnext

/-- What is said to be in a line is found there. -/
theorem Stands.reads (h : s.Stands (line ++ tail) σ) (hline : '\n' ∉ line)
    (htail : LineOver tail) : s.Reads tail (σ.read (!tail.isEmpty) line) := by
  cases σ with
  | inside bs ws hasTokens =>
    obtain ⟨hinside, ht⟩ := h
    exact (hinside.finds_words hline htail).reads ht htail
  | starting ws =>
    have h : s.Starts ws (line ++ tail) := h
    cases htokenless : tokenless line with
    | true =>
      rw [Stand.read, if_pos htokenless]
      obtain ⟨hleads, hstarts⟩ := h.leads_margin (margin_tokenless htokenless hline htail)
      obtain rfl | ⟨more, rfl⟩ := lineOver_cases htail
      · exact ⟨_, hleads, hstarts⟩
      · obtain ⟨hleads', hstarts'⟩ := hstarts.leads_newline
        exact ⟨_, hleads.trans hleads', hstarts'⟩
    | false =>
      rw [Stand.read, if_neg (by simp [htokenless])]
      have hnext := h.next_line (margin_of_not_tokenless htokenless hline tail)
      rw [← List.takeWhile_append_dropWhile (p := isInlineBlank) (l := line),
        List.append_assoc] at h
      have henters := h.inside.enters_moved hnext
      cases hm : moved ws (level (line.takeWhile isInlineBlank)) with
      | error e =>
        rw [hm] at henters
        exact henters
      | ok m =>
        rw [hm] at henters
        obtain ⟨s', hleads, hinside', ht⟩ := henters
        have hbody : '\n' ∉ line.dropWhile isInlineBlank :=
          fun hmem => hline ((List.dropWhile_suffix _).subset hmem)
        exact ((hinside'.finds_words hbody htail).reads
          (ht.trans h.lineHasTokens) htail).of_leads hleads

/-- Where the end of the text has been found, the ends of the blocks are left. -/
theorem kinds_of_finished {t : Token} (ht : t.kind = .dedent) {blocks : List Nat}
    (hs : s.pending = blocks.map fun _ => t) (hf : s.finished = true) :
    s.kinds = .ok (blocks.map (fun _ => .dedent) ++ [Kind.endOfFile]) := by
  rw [(leads_dedents ht hs).kinds, Scanner.kinds,
    tokens_of_end (next_of_finished (s := { s with pending := [] }) hf) rfl]
  rfl

/-- At the end of a text the last line and all blocks end. -/
theorem Stands.closing (h : s.Stands [] σ) : s.kinds = .ok σ.closing := by
  cases σ with
  | starting ws =>
    have hnext := (Starts.next_end h).trans (next_of_finished rfl).symm
    rw [(Leads.of_next_eq hnext).kinds, kinds_of_finished rfl rfl rfl]
    rfl
  | inside bs ws hasTokens =>
    obtain ⟨hinside, rfl⟩ := h
    have hnext := hinside.next_end
    rw [finish, hinside.widths] at hnext
    cases ht : s.lineHasTokens with
    | true =>
      dsimp only at hnext
      rw [if_pos (by simpa [close] using ht)] at hnext
      rw [(Leads.of_next hnext (by rintro ⟨⟩)).kinds, kinds_of_finished rfl rfl rfl]
      rfl
    | false =>
      dsimp only at hnext
      rw [if_neg (by simp [close, ht]), ← next_of_finished rfl] at hnext
      rw [(Leads.of_next_eq hnext).kinds, kinds_of_finished rfl rfl rfl]
      rfl

/-- A text is scanned line by line. -/
theorem Stands.kinds {lines : List (List Char)} (h : s.Stands (['\n'].intercalate lines) σ)
    (hlines : ∀ line ∈ lines, '\n' ∉ line) : s.kinds = σ.kinds lines := by
  induction lines generalizing s σ with
  | nil => exact h.closing
  | cons line lines ih =>
    rw [List.forall_mem_cons] at hlines
    obtain ⟨tail, htail, hempty, htext, hnext⟩ : ∃ tail, LineOver tail ∧
        tail.isEmpty = lines.isEmpty ∧ ['\n'].intercalate (line :: lines) = line ++ tail ∧
          tail.tail = ['\n'].intercalate lines := by
      cases lines with
      | nil => exact ⟨[], .nil, rfl, by simp, rfl⟩
      | cons line' lines =>
        refine ⟨_, .newline _, rfl, ?_, rfl⟩
        rw [List.intercalate_cons_cons, List.append_assoc]
        rfl
    rw [htext] at h
    have hreads := h.reads hlines.1 htail
    rw [hempty] at hreads
    rw [Stand.kinds]
    cases hread : σ.read (!lines.isEmpty) line with
    | error e =>
      rw [hread] at hreads
      exact hreads
    | ok r =>
      rw [hread] at hreads
      obtain ⟨s', hleads, hstands⟩ := hreads
      rw [hnext] at hstands
      rw [hleads.kinds, ih hstands hlines.2]
      rfl

end Scanner

/-- No line has an end in it. -/
theorem not_mem_of_mem_splitOn {cs line : List Char} (h : line ∈ cs.splitOn '\n') :
    '\n' ∉ line := by
  induction cs generalizing line with
  | nil =>
    obtain rfl := List.mem_singleton.mp h
    exact List.not_mem_nil
  | cons c cs ih =>
    rw [List.splitOn_cons_eq_if_modifyHead] at h
    split at h
    · obtain rfl | h := List.mem_cons.mp h
      · exact List.not_mem_nil
      · exact ih h
    · rename_i hc
      cases hlines : cs.splitOn '\n' with
      | nil => exact absurd hlines (List.splitOn_ne_nil _ _)
      | cons first lines =>
        rw [hlines] at h ih
        obtain rfl | h := List.mem_cons.mp h
        · rw [List.mem_cons, not_or]
          exact ⟨fun heq => hc (by rw [heq, beq_self_eq_true]), ih (.head _)⟩
        · exact ih (.tail _ h)

/-- The tokens of a text are those of its lines. -/
theorem kinds_eq_lines (source : String) :
    kinds source = (Stand.starting []).kinds (source.toList.splitOn '\n') := by
  have hstarts : (Scanner.ofText source).Starts []
      (['\n'].intercalate (source.toList.splitOn '\n')) := by
    rw [List.intercalate_splitOn]
    exact ⟨rfl, rfl, rfl, rfl, rfl, rfl, rfl⟩
  exact Scanner.Stands.kinds (σ := .starting []) hstarts fun line hline =>
    not_mem_of_mem_splitOn hline

end Growth.Code
