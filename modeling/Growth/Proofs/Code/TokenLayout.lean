import Mathlib
import Growth.Proofs.Code.TokenKinds

/-! How the tokens of a text are laid out: the end comes once and last, blocks are closed after they
are opened, brackets close the innermost open one and hold no line ends, and a block is opened at
the beginning of a line. -/

namespace Growth.Code

/-- Whether a token of the kind is part of the layout of lines. -/
def Kind.isLayout : Kind → Bool
  | .newline | .indent | .dedent => true
  | _ => false

/-- The open brackets after a token of the kind, if `bs` were open before it. -/
def Kind.brackets (bs : List Bracket) : Kind → List Bracket
  | .mark (.opening b) => b :: bs
  | .mark (.closing _) => bs.tail
  | _ => bs

/-- The brackets that are still open after tokens of the kinds, the innermost first. -/
def stillOpen (ks : List Kind) : List Bracket :=
  ks.foldl Kind.brackets []

/-- Each bracket that is opened among the kinds is closed among them, and the other way round. -/
inductive Balanced : List Kind → Prop
  | nil : Balanced []
  | plain {k : Kind} {ks : List Kind} (hk : ∀ bs, k.brackets bs = bs) (h : Balanced ks) :
      Balanced (k :: ks)
  | group (b b' : Bracket) {inner ks : List Kind} (hinner : Balanced inner) (h : Balanced ks) :
      Balanced (.mark (.opening b) :: inner ++ .mark (.closing b') :: ks)

/-- The kinds are laid out as those of a whole text. -/
structure WellLaid (ks : List Kind) : Prop where
  /-- The end comes once, and last. -/
  ends : ∃ front, ks = front ++ [.endOfFile] ∧ .endOfFile ∉ front
  /-- Only blocks that were opened are closed. -/
  sane : ∀ front, front <+: ks → front.count .dedent ≤ front.count .indent
  /-- All blocks are closed. -/
  settled : ks.count .dedent = ks.count .indent
  /-- A bracket closes the innermost one that is still open. -/
  closes : ∀ front b back, ks = front ++ .mark (.closing b) :: back →
    (stillOpen front).head? = some b
  /-- Between a bracket and the one that closes it there are no ends of lines and blocks. -/
  joined : ∀ front b inner b' back,
    ks = front ++ .mark (.opening b) :: inner ++ .mark (.closing b') :: back → Balanced inner →
      b' = b ∧ ∀ k ∈ inner, k.isLayout = false
  /-- A block is opened at the beginning of a line. -/
  indents : ∀ front back, ks = front ++ .indent :: back →
    front = [] ∨ front.getLast? = some .newline

/-! ### Open brackets -/

/-- While balanced kinds are passed, the brackets that were open before stay open, and after them
they are open alone. -/
theorem Balanced.foldl {ks : List Kind} (h : Balanced ks) (bs : List Bracket) :
    ks.foldl Kind.brackets bs = bs ∧
      ∀ front, front <+: ks → bs <:+ front.foldl Kind.brackets bs := by
  induction h generalizing bs with
  | nil =>
    refine ⟨rfl, fun front hfront => ?_⟩
    rw [List.prefix_nil.mp hfront]
    exact List.suffix_rfl
  | @plain k ks hk _ ih =>
    obtain ⟨hall, hfronts⟩ := ih bs
    refine ⟨by rw [List.foldl_cons, hk, hall], fun front hfront => ?_⟩
    obtain rfl | ⟨more, rfl, hmore⟩ := List.prefix_cons_iff.mp hfront
    · exact List.suffix_rfl
    · rw [List.foldl_cons, hk]
      exact hfronts more hmore
  | @group b b' inner ks _ _ ihinner ih =>
    obtain ⟨hinner, hwithin⟩ := ihinner (b :: bs)
    obtain ⟨hall, hfronts⟩ := ih bs
    refine ⟨?_, fun front hfront => ?_⟩
    · rw [List.cons_append, List.foldl_cons, List.foldl_append, Kind.brackets, hinner,
        List.foldl_cons, Kind.brackets, List.tail_cons, hall]
    obtain rfl | ⟨more, rfl, hmore⟩ := List.prefix_cons_iff.mp hfront
    · exact List.suffix_rfl
    rw [List.foldl_cons, Kind.brackets]
    obtain hshort | ⟨more, rfl⟩ := List.prefix_or_prefix_of_prefix hmore (List.prefix_append inner _)
    · exact (List.suffix_cons b bs).trans (hwithin _ hshort)
    rw [List.foldl_append, hinner]
    obtain rfl | ⟨more, rfl, hafter⟩ :=
      List.prefix_cons_iff.mp ((List.prefix_append_right_inj inner).mp hmore)
    · exact List.suffix_cons b bs
    · rw [List.foldl_cons, Kind.brackets, List.tail_cons]
      exact hfronts more hafter

theorem Kind.brackets_eq {k : Kind} (hopening : ∀ b, k ≠ .mark (.opening b))
    (hclosing : ∀ b, k ≠ .mark (.closing b)) (bs : List Bracket) : k.brackets bs = bs := by
  unfold Kind.brackets
  split
  · exact absurd rfl (hopening _)
  · exact absurd rfl (hclosing _)
  · rfl

theorem stillOpen_append (ks ks' : List Kind) :
    stillOpen (ks ++ ks') = ks'.foldl Kind.brackets (stillOpen ks) :=
  List.foldl_append

/-- What is no sign at the beginning of a text is no bracket and no layout. -/
theorem plain_of_lexeme {c : Char} {cs chars : List Char} {k : Kind}
    (h : lexeme c cs = .token k chars) :
    k.isLayout = false ∧ k ≠ .endOfFile ∧ ∀ m, k ≠ .mark m := by
  rcases lexeme_cases h with ⟨content, -, -, rfl, -⟩ | ⟨-, -, rfl⟩ | ⟨-, -, f, -, hk⟩
  · exact ⟨rfl, nofun, nofun⟩
  · unfold nameKind
    split <;> exact ⟨rfl, nofun, nofun⟩
  · rcases numberKind?_cases hk with ⟨v, rfl, -⟩ | ⟨l, rfl, -⟩ <;> exact ⟨rfl, nofun, nofun⟩

/-! ### From one token to the next -/

namespace Scanner

/-- How many blocks are open, or have an end that is pending. -/
def blocks (s : Scanner) : Nat :=
  s.widths.length + s.pending.length

/-- What a scanner keeps to between two tokens. -/
structure Orderly (s : Scanner) : Prop where
  onlyEnds : s.OnlyEnds
  pending : s.pending ≠ [] → s.brackets = [] ∨ s.finished = true
  lineStart : s.atLineStart = true → s.brackets = [] ∧ s.pending = [] ∧ s.finished = false
  finished : s.finished = true → s.widths = []

/-- From `s` to `s'` a token of the kind `k` is passed. -/
structure Passes (s : Scanner) (k : Kind) (s' : Scanner) : Prop where
  orderly : s'.Orderly
  blocks : s'.blocks + [k].count .dedent = s.blocks + [k].count .indent
  brackets : s'.brackets = k.brackets s.brackets
  closes : ∀ b, k = .mark (.closing b) → s.brackets.head? = some b
  layout : k.isLayout = true → s.brackets = [] ∨ s'.finished = true
  lineStart : s'.atLineStart = true → k = .newline
  indent : k = .indent → s.atLineStart = true
  finished : s.finished = true → s'.finished = true ∧ (k = .dedent ∨ k = .endOfFile)
  endOfFile : k = .endOfFile → s.blocks = 0

/-- The token of a step, if it gives one, is passed. -/
def Step (s : Scanner) (step : Except ScanError Token × Scanner) : Prop :=
  ∀ t, step.1 = .ok t → s.Passes t.kind step.2

variable {s s' : Scanner} {bs : List Bracket} {w : List Nat} {rest rest' : List Char} {k : Kind}

theorem Step.of_passes {t : Token} (h : s.Passes t.kind s') : s.Step (.ok t, s') := by
  rintro _ ⟨⟩
  exact h

theorem Step.of_error (e : ScanError) : s.Step (.error e, s') :=
  by rintro _ ⟨⟩

/-- A step is known from the blocks and brackets before it. -/
theorem Step.congr {a : Scanner} {step : Except ScanError Token × Scanner} (h : a.Step step)
    (hblocks : a.blocks = s.blocks) (hbrackets : a.brackets = s.brackets)
    (hstart : a.atLineStart = true → s.atLineStart = true) (hfinished : s.finished = false) :
    s.Step step := by
  intro t ht
  obtain ⟨h1, h2, h3, h4, h5, h6, h7, -, h9⟩ := h t ht
  exact ⟨h1, hblocks ▸ h2, hbrackets ▸ h3, hbrackets ▸ h4, hbrackets ▸ h5, h6,
    fun hk => hstart (h7 hk), by simp [hfinished], hblocks ▸ h9⟩

theorem Inside.orderly (h : s.Inside bs w rest) : s.Orderly where
  onlyEnds := by simp [OnlyEnds, h.pending]
  pending := by simp [h.pending]
  lineStart := by simp [h.atLineStart]
  finished := by simp [h.finished]

/-- A token with characters leaves the scanner inside the line. -/
theorem Passes.inside (h : s.Inside bs w rest) (h' : s'.Inside (k.brackets bs) w rest')
    (hlayout : k.isLayout = false) (hend : k ≠ .endOfFile)
    (hcloses : ∀ b, k = .mark (.closing b) → bs.head? = some b) : s.Passes k s' where
  orderly := h'.orderly
  blocks := by
    have hdedent : k ≠ .dedent := by rintro rfl; exact nomatch hlayout
    have hindent : k ≠ .indent := by rintro rfl; exact nomatch hlayout
    simp [Scanner.blocks, h.widths, h.pending, h'.widths, h'.pending, hdedent, hindent]
  brackets := by rw [h'.brackets, h.brackets]
  closes := by rw [h.brackets]; exact hcloses
  layout := by simp [hlayout]
  lineStart := by simp [h'.atLineStart]
  indent := by rintro rfl; exact nomatch hlayout
  finished := by simp [h.finished]
  endOfFile := fun hk => absurd hk hend

theorem step_take (h : s.Inside bs w rest) {chars : List Char} (hlayout : k.isLayout = false)
    (hend : k ≠ .endOfFile) (hopening : ∀ b, k ≠ .mark (.opening b))
    (hclosing : ∀ b, k ≠ .mark (.closing b)) : s.Step (s.take k chars) := by
  refine .of_passes (.inside h (?_ : Inside _ _ _ (s.rest.drop chars.length)) hlayout hend ?_)
  · rw [Kind.brackets_eq hopening hclosing]
    exact ⟨rfl, h.brackets, h.widths, h.pending, h.atLineStart, h.finished⟩
  · exact fun b hb => absurd hb (hclosing b)

theorem step_takeSign (h : s.Inside bs w rest) (m : Mark) (chars : List Char) :
    s.Step (s.takeSign m chars) := by
  unfold takeSign
  split
  · rename_i b
    refine .of_passes (.inside h (?_ : Inside _ _ _ (s.rest.drop chars.length)) rfl nofun nofun)
    exact ⟨rfl, congrArg (b :: ·) h.brackets, h.widths, h.pending, h.atLineStart, h.finished⟩
  · rename_i b
    dsimp only
    split
    · rename_i hb
      refine .of_passes (.inside h (?_ : Inside _ _ _ (s.rest.drop chars.length)) rfl nofun ?_)
      · exact ⟨rfl, congrArg List.tail h.brackets, h.widths, h.pending, h.atLineStart, h.finished⟩
      · rintro _ ⟨⟩
        rw [← h.brackets, hb]
    · exact .of_error _
  · rename_i hopening hclosing
    refine step_take h rfl nofun (fun b hb => ?_) (fun b hb => ?_)
    · exact hopening b (Kind.mark.inj hb)
    · exact hclosing b (Kind.mark.inj hb)

/-- At the end of the text only ends of lines and blocks are passed, and then the end. -/
theorem Passes.finishing (h : s.Inside bs w rest) {p : List Token} (hp : ∀ t ∈ p, t.kind = .dedent)
    (hk : k = .newline ∨ k = .dedent ∨ k = .endOfFile)
    (hblocks : p.length + [k].count .dedent = s.blocks) (hend : k = .endOfFile → p = [])
    (lineHasTokens : Bool) :
    s.Passes k { s with pending := p, widths := [], finished := true, lineHasTokens } where
  orderly := ⟨hp, fun _ => .inr rfl, fun hs => by simp [h.atLineStart] at hs, fun _ => rfl⟩
  blocks := by
    have hindent : k ≠ .indent := by rintro rfl; simp at hk
    simpa [Scanner.blocks, hindent] using hblocks
  brackets := by rcases hk with rfl | rfl | rfl <;> rfl
  closes := by rintro b rfl; simp at hk
  layout := fun _ => .inr rfl
  lineStart := by simp [h.atLineStart]
  indent := by rintro rfl; simp at hk
  finished := by simp [h.finished]
  endOfFile := by
    intro he
    rw [← hblocks, hend he, he]
    rfl

theorem step_finish (h : s.Inside bs w rest) : s.Step s.finish := by
  have hends := s.onlyEnds_close s.widths
  have hblocks : (s.close s.widths).pending.length = s.blocks := by
    simp [close, Scanner.blocks, h.pending]
  unfold finish
  dsimp only
  split
  · refine .of_passes (.finishing h hends (.inl rfl) ?_ (by simp) false)
    simpa using hblocks
  unfold deliver
  dsimp only
  split
  · rename_i t pending hpending
    rw [OnlyEnds, hpending, List.forall_mem_cons] at hends
    rw [hpending] at hblocks
    refine .of_passes (.finishing h hends.2 (.inr (.inl hends.1)) ?_ ?_ _)
    · simpa [hends.1] using hblocks
    · rw [hends.1]
      simp
  · rename_i hpending
    rw [hpending] at hblocks
    refine .of_passes (.finishing h ?_ (.inr (.inr rfl)) ?_ ?_ _)
    · rw [hpending]
      exact List.forall_mem_nil _
    · rw [hpending, ← hblocks]
      rfl
    · exact fun _ => hpending

/-- Inside brackets a line does not end. -/
theorem gap_bracketed {between : Between} {cs : List Char} :
    (cs.drop (gap true between cs).length).head? ≠ some '\n' := by
  induction cs generalizing between with
  | nil => simp [gap]
  | cons c cs ih =>
    rw [gap]
    split
    · simpa using ih
    split
    · simpa using ih
    split
    · simpa using ih
    split
    · simpa using ih
    · simpa using ‹¬(c == '\n') = true›

theorem step_inLine (h : s.Inside bs w rest) : s.Step s.inLine := by
  have hskip : (s.skip (gap (!s.brackets.isEmpty) .blanks s.rest)).Inside bs w _ :=
    ⟨rfl, h.brackets, h.widths, h.pending, h.atLineStart, h.finished⟩
  have hgap : s.brackets ≠ [] →
      (s.skip (gap (!s.brackets.isEmpty) .blanks s.rest)).rest.head? ≠ some '\n' := by
    intro hb
    rw [show (!s.brackets.isEmpty) = true by simpa using hb]
    exact gap_bracketed
  unfold inLine
  generalize s.skip (gap (!s.brackets.isEmpty) .blanks s.rest) = a at hskip hgap
  refine .congr (a := a) ?_ (by simp [Scanner.blocks, h.widths, h.pending, hskip.widths,
    hskip.pending]) (hskip.brackets.trans h.brackets.symm) (by simp [hskip.atLineStart]) h.finished
  dsimp only
  split
  · exact step_finish hskip
  rename_i c cs hrest
  split
  · rename_i hc
    have hbs : bs = [] := by
      rw [h.brackets, hrest] at hgap
      by_contra hbs
      exact hgap hbs (congrArg some (beq_iff_eq.mp hc))
    subst hbs
    refine .of_passes ⟨⟨?_, ?_, ?_, ?_⟩, rfl, rfl, by simp, ?_, fun _ => rfl, by simp, ?_, by simp⟩
    · exact hskip.orderly.onlyEnds
    · exact hskip.orderly.pending
    · exact fun _ => ⟨hskip.brackets, hskip.pending, hskip.finished⟩
    · exact hskip.orderly.finished
    · exact fun _ => .inl hskip.brackets
    · simp [hskip.finished]
  split
  · rename_i hlexeme
    obtain ⟨hlayout, hend, hmark⟩ := plain_of_lexeme hlexeme
    exact step_take hskip hlayout hend (fun _ => hmark _) (fun _ => hmark _)
  · exact step_takeSign hskip _ _
  · exact .of_error _
  · exact .of_error _
  · exact .of_error _

/-- At the beginning of a line a block is opened, or blocks are closed, or the line is read. -/
theorem step_indented (h : s.Inside [] w rest) (width : Nat) :
    { s with atLineStart := true }.Step (s.indented width) := by
  have horderly (widths : List Nat) (p : List Token) (hp : ∀ t ∈ p, t.kind = .dedent) :
      Orderly { s with widths, pending := p } :=
    ⟨hp, fun _ => .inl h.brackets, by simp [h.atLineStart], by simp [h.finished]⟩
  unfold indented
  split
  · refine .of_passes ⟨horderly _ _ h.orderly.onlyEnds, ?_, rfl, by rintro _ ⟨⟩,
      fun _ => .inl h.brackets, ?_, fun _ => rfl, ?_, by rintro ⟨⟩⟩
    · simp [Scanner.blocks, emptyToken]
      omega
    · simp [h.atLineStart]
    · simp [h.finished]
  dsimp only
  have hends := s.onlyEnds_close (s.widths.span (width < ·)).1
  have hlength : (s.close (s.widths.span (width < ·)).1).pending.length +
      (s.widths.span (width < ·)).2.length = s.blocks := by
    rw [close, List.length_map, ← List.length_append, List.span_eq_takeWhile_dropWhile,
      List.takeWhile_append_dropWhile, Scanner.blocks, h.pending, List.length_nil, Nat.add_zero]
  generalize s.widths.span (width < ·) = parts at hends hlength
  obtain ⟨closed, left⟩ := parts
  dsimp only at hends hlength ⊢
  split
  · unfold deliver
    dsimp only
    split
    · rename_i t pending hpending
      rw [OnlyEnds, hpending, List.forall_mem_cons] at hends
      rw [hpending] at hlength
      refine .of_passes ?_
      rw [hends.1]
      refine ⟨horderly _ _ hends.2, ?_, rfl, by rintro _ ⟨⟩, fun _ => .inl h.brackets, ?_,
        by rintro ⟨⟩, ?_, by rintro ⟨⟩⟩
      · simp [Scanner.blocks] at hlength ⊢
        omega
      · simp [close, h.atLineStart]
      · simp [h.finished]
    · rename_i hpending
      rw [hpending, List.length_nil, Nat.zero_add] at hlength
      have hin : Inside { s.close closed with widths := left } [] left rest :=
        ⟨h.rest, h.brackets, rfl, hpending, h.atLineStart, h.finished⟩
      refine (step_inLine hin).congr ?_ rfl (fun _ => rfl) h.finished
      simpa [Scanner.blocks, hpending] using hlength
  · exact .of_error _

/-- What is passed from one token to the next. -/
theorem step_next (h : s.Orderly) : s.Step s.next := by
  unfold next deliver
  split
  · rename_i t pending hpending
    have hends := h.onlyEnds
    rw [OnlyEnds, hpending, List.forall_mem_cons] at hends
    have hbrackets := h.pending (by simp [hpending])
    have hstart : s.atLineStart = false := by
      by_contra hstart
      simpa [hpending] using (h.lineStart (by simpa using hstart)).2.1
    refine .of_passes ?_
    rw [hends.1]
    refine ⟨⟨hends.2, fun _ => hbrackets, ?_, h.finished⟩, ?_, rfl, nofun, fun _ => hbrackets, ?_,
      nofun, fun hf => ⟨hf, .inl rfl⟩, nofun⟩
    · simp [hstart]
    · simp [Scanner.blocks, hpending]
      omega
    · simp [hstart]
  rename_i hpending
  dsimp only
  split
  · rename_i hfinished
    have hstart : s.atLineStart = false := by
      by_contra hstart
      simpa [hfinished] using (h.lineStart (by simpa using hstart)).2.2
    refine .of_passes ⟨h, rfl, rfl, nofun, nofun, ?_, nofun, fun hf => ⟨hf, .inr rfl⟩, fun _ => ?_⟩
    · simp [hstart]
    · simp [Scanner.blocks, hpending, h.finished hfinished]
  rename_i hfinished
  simp only [Bool.not_eq_true] at hfinished
  split
  · rename_i hstart
    have hin : Inside { s.skip (margin 0 false s.rest).1 with atLineStart := false } [] s.widths _ :=
      ⟨rfl, (h.lineStart hstart).1, rfl, hpending, rfl, hfinished⟩
    split
    · exact (step_inLine hin).congr rfl rfl nofun hfinished
    · exact (step_indented hin _).congr rfl rfl (fun _ => hstart) hfinished
  · rename_i hstart
    exact step_inLine ⟨rfl, rfl, rfl, hpending, by simpa using hstart, hfinished⟩

theorem passes_of_next (h : s.Orderly) {t : Token} (hnext : s.next = (.ok t, s')) :
    s.Passes t.kind s' := by
  have hstep := step_next h t (by rw [hnext])
  rwa [hnext] at hstep

/-! ### From the beginning of a text -/

/-- From `s` the scanner comes to `s'` and passes tokens of the kinds on its way. -/
inductive Reaches (s : Scanner) : List Kind → Scanner → Prop
  | here : Reaches s [] s
  | step {ks : List Kind} {s' s'' : Scanner} {t : Token} (h : Reaches s ks s')
      (hnext : s'.next = (.ok t, s'')) : Reaches s (ks ++ [t.kind]) s''

theorem Reaches.cons {t : Token} {s'' : Scanner} {ks : List Kind} (hnext : s.next = (.ok t, s'))
    (h : Reaches s' ks s'') : Reaches s (t.kind :: ks) s'' := by
  induction h with
  | here => exact .step .here hnext
  | step _ hnext' ih => exact .step ih hnext'

theorem Reaches.split {ks ks' : List Kind} (h : Reaches s (ks ++ ks') s') :
    ∃ a, Reaches s ks a ∧ Reaches a ks' s' := by
  generalize hall : ks ++ ks' = all at h
  induction h generalizing ks' with
  | here =>
    obtain ⟨rfl, rfl⟩ := List.append_eq_nil_iff.mp hall
    exact ⟨s, .here, .here⟩
  | @step _ _ s'' t h hnext ih =>
    obtain rfl | ⟨front, k, rfl⟩ := List.eq_nil_or_concat ks'
    · rw [List.append_nil] at hall
      exact ⟨s'', hall ▸ .step h hnext, .here⟩
    · rw [List.concat_eq_append] at hall ⊢
      rw [← List.append_assoc] at hall
      obtain ⟨hfront, hk⟩ := List.append_inj' hall rfl
      obtain ⟨a, ha, hb⟩ := ih hfront
      exact ⟨a, ha, List.singleton_inj.mp hk ▸ .step hb hnext⟩

theorem Reaches.uncons {ks : List Kind} (h : Reaches s (k :: ks) s') :
    ∃ t a, s.next = (.ok t, a) ∧ t.kind = k ∧ Reaches a ks s' := by
  obtain ⟨a, ha, hb⟩ : ∃ a, Reaches s [k] a ∧ Reaches a ks s' := split h
  generalize hk : [k] = front at ha
  cases ha with
  | here => exact nomatch hk
  | step ha hnext =>
    obtain ⟨rfl, ht⟩ := List.append_inj' ((List.nil_append [k]).trans hk) rfl
    generalize hnil : ([] : List Kind) = front at ha
    cases ha with
    | here => exact ⟨_, a, hnext, (List.singleton_inj.mp ht).symm, hb⟩
    | step => simp at hnil

/-- The first token is that of the scanner, and the others are those of the scanner after it. -/
theorem tokens_eq_ok {ts : List Token} (h : s.tokens = .ok ts) :
    ∃ t s', s.next = (.ok t, s') ∧ (t.kind = .endOfFile ∧ ts = [t] ∨
      t.kind ≠ .endOfFile ∧ ∃ ts', s'.tokens = .ok ts' ∧ ts = t :: ts') := by
  unfold tokens at h
  split at h
  · cases h
  rename_i t s' hnext
  refine ⟨t, s', hnext, ?_⟩
  split at h
  · rename_i hend
    cases h
    exact .inl ⟨hend, rfl⟩
  · rename_i hend
    cases htokens : s'.tokens with
    | error => rw [htokens] at h; cases h
    | ok ts' =>
      rw [htokens] at h
      exact .inr ⟨hend, ts', rfl, (Except.ok.inj h).symm⟩

/-- Before each token of a text the scanner is at a place from which this token is next. -/
theorem reaches_of_tokens {ts : List Token} (h : s.tokens = .ok ts) {front back : List Kind}
    (hks : ts.map Token.kind = front ++ k :: back) :
    ∃ a t a', Reaches s front a ∧ a.next = (.ok t, a') ∧ t.kind = k := by
  induction front generalizing s ts with
  | nil =>
    obtain ⟨t, s', hnext, ⟨-, rfl⟩ | ⟨-, ts', -, rfl⟩⟩ := tokens_eq_ok h
    · exact ⟨s, t, s', .here, hnext, (List.cons.inj hks).1⟩
    · exact ⟨s, t, s', .here, hnext, (List.cons.inj hks).1⟩
  | cons k' front ih =>
    obtain ⟨t, s', hnext, ⟨-, rfl⟩ | ⟨-, ts', hts', rfl⟩⟩ := tokens_eq_ok h
    · exact absurd (List.cons.inj hks).2.symm (by simp)
    · obtain ⟨rfl, hback⟩ := List.cons.inj hks
      obtain ⟨a, t', a', ha, hnext', ht'⟩ := ih hts' hback
      exact ⟨a, t', a', ha.cons hnext, hnext', ht'⟩

theorem ends_of_tokens {ts : List Token} (h : s.tokens = .ok ts) :
    ∃ front, ts.map Token.kind = front ++ [Kind.endOfFile] ∧ Kind.endOfFile ∉ front := by
  fun_induction tokens s generalizing ts with
  | case1 => cases h
  | case2 s t s' hnext hend =>
    cases h
    exact ⟨[], by simp [hend], List.not_mem_nil⟩
  | case3 s t s' hnext hend ih =>
    cases htokens : s'.tokens with
    | error => rw [htokens] at h; cases h
    | ok ts' =>
      rw [htokens] at h
      cases h
      obtain ⟨front, hfront, hnone⟩ := ih htokens
      exact ⟨t.kind :: front, by simp [hfront], by simp [hnone, Ne.symm hend]⟩

/-- What tokens of the kinds have done to the scanner `s`, when it has come to `s'`. -/
structure Passed (s : Scanner) (ks : List Kind) (s' : Scanner) : Prop where
  orderly : s'.Orderly
  blocks : s'.blocks + ks.count .dedent = s.blocks + ks.count .indent
  brackets : s'.brackets = ks.foldl Kind.brackets s.brackets
  lineStart : s'.atLineStart = true → ks = [] ∨ ks.getLast? = some .newline
  finished : s.finished = true → s'.finished = true ∧ ∀ k ∈ ks, k = .dedent ∨ k = .endOfFile

theorem Reaches.passed (hs : s.Orderly) {ks : List Kind} (h : Reaches s ks s') :
    s.Passed ks s' := by
  induction h with
  | here => exact ⟨hs, rfl, rfl, fun _ => .inl rfl, fun hf => ⟨hf, List.forall_mem_nil _⟩⟩
  | @step ks _ s'' t _ hnext ih =>
    have hstep := passes_of_next ih.orderly hnext
    refine ⟨hstep.orderly, ?_, ?_, fun hstart => ?_, fun hf => ?_⟩
    · have h1 := hstep.blocks
      have h2 := ih.blocks
      simp only [List.count_append]
      omega
    · rw [hstep.brackets, ih.brackets, List.foldl_append]
      rfl
    · exact .inr (by rw [List.getLast?_concat, hstep.lineStart hstart])
    · obtain ⟨hf', hall⟩ := ih.finished hf
      obtain ⟨hf'', hk⟩ := hstep.finished hf'
      refine ⟨hf'', fun k hk' => ?_⟩
      rcases List.mem_append.mp hk' with hk' | hk'
      · exact hall k hk'
      · rwa [List.mem_singleton.mp hk']

theorem orderly_ofText (source : String) : (ofText source).Orderly where
  onlyEnds := List.forall_mem_nil _
  pending := nofun
  lineStart := fun _ => ⟨rfl, rfl, rfl⟩
  finished := nofun

end Scanner

variable {source : String} {ts : List Token} {front inner back : List Kind} {k : Kind}

/-- Where a token of a text stands, what was passed before it and what is passed with it. -/
theorem passed_of_tokens (h : tokens source = .ok ts)
    (hks : ts.map Token.kind = front ++ k :: back) :
    ∃ a a', (Scanner.ofText source).Reaches front a ∧ (Scanner.ofText source).Passed front a ∧
      a.Passes k a' := by
  obtain ⟨a, t, a', ha, hnext, rfl⟩ := Scanner.reaches_of_tokens h hks
  have hpassed := ha.passed (Scanner.orderly_ofText source)
  exact ⟨a, a', ha, hpassed, Scanner.passes_of_next hpassed.orderly hnext⟩

theorem settled_of_tokens (h : tokens source = .ok ts) :
    (ts.map Token.kind).count .dedent = (ts.map Token.kind).count .indent := by
  obtain ⟨front, hfront, -⟩ := Scanner.ends_of_tokens h
  obtain ⟨a, a', -, hpassed, hstep⟩ := passed_of_tokens h hfront
  have hblocks := hpassed.blocks
  rw [hstep.endOfFile rfl] at hblocks
  rw [hfront]
  simpa [Scanner.ofText, Scanner.blocks] using hblocks

theorem count_of_tokens (h : tokens source = .ok ts) (hks : ts.map Token.kind = front ++ k :: back) :
    front.count .dedent ≤ front.count .indent := by
  obtain ⟨a, a', -, hpassed, -⟩ := passed_of_tokens h hks
  have hblocks := hpassed.blocks
  have hstart : (Scanner.ofText source).blocks = 0 := rfl
  omega

/-- In brackets that are closed there is no layout: after a line end in brackets the text is at its
end. -/
theorem isLayout_of_tokens (h : tokens source = .ok ts) {b b' : Bracket}
    (hks : ts.map Token.kind =
      front ++ Kind.mark (.opening b) :: inner ++ Kind.mark (.closing b') :: back)
    (hinner : Balanced inner) : ∀ k ∈ inner, k.isLayout = false := by
  intro k hk
  obtain ⟨before, after, rfl⟩ := List.append_of_mem hk
  obtain ⟨a, a', ha, -, hclosing⟩ := passed_of_tokens h hks
  rw [← List.cons_append, ← List.append_assoc] at ha
  obtain ⟨a₁, ha₁, hrest⟩ := ha.split
  obtain ⟨t, a₂, hnext, rfl, hafter⟩ := hrest.uncons
  have hpassed := ha₁.passed (Scanner.orderly_ofText source)
  have hstep := Scanner.passes_of_next hpassed.orderly hnext
  by_contra hlayout
  have hopen : (b :: stillOpen front) <:+ a₁.brackets := by
    rw [hpassed.brackets, List.foldl_append]
    exact (hinner.foldl _).2 _ (List.prefix_append _ _)
  have hfinished : a₂.finished = true := by
    refine (hstep.layout (by simpa using hlayout)).resolve_left fun hnone => ?_
    rw [hnone] at hopen
    exact nomatch List.suffix_nil.mp hopen
  have hend := (hclosing.finished ((hafter.passed hstep.orderly).finished hfinished).1).2
  simp at hend

/-- The tokens of a text are well laid out. -/
theorem wellLaid_of_tokens (h : tokens source = .ok ts) : WellLaid (ts.map Token.kind) where
  ends := Scanner.ends_of_tokens h
  sane := by
    rintro front ⟨back, hback⟩
    cases back with
    | nil =>
      rw [← List.append_nil front, hback]
      exact (settled_of_tokens h).le
    | cons k back => exact count_of_tokens h hback.symm
  settled := settled_of_tokens h
  closes := by
    intro front b back hks
    obtain ⟨a, a', -, hpassed, hstep⟩ := passed_of_tokens h hks
    rw [← hstep.closes b rfl, hpassed.brackets]
    rfl
  joined := by
    intro front b inner b' back hks hinner
    refine ⟨?_, isLayout_of_tokens h hks hinner⟩
    obtain ⟨a, a', -, hpassed, hstep⟩ := passed_of_tokens h hks
    have hclosing := hstep.closes b' rfl
    rw [hpassed.brackets, List.foldl_append, List.foldl_cons, (hinner.foldl _).1] at hclosing
    exact (Option.some.inj hclosing).symm
  indents := by
    intro front back hks
    obtain ⟨a, a', -, hpassed, hstep⟩ := passed_of_tokens h hks
    exact hpassed.lineStart (hstep.indent rfl)

/-- The tokens of a block that is brackets over two lines. -/
def blockTokens : List Token :=
  [⟨.identifier "a", ⟨0, ⟨1, 0⟩⟩, 1⟩, ⟨.mark .colon, ⟨1, ⟨1, 1⟩⟩, 2⟩, ⟨.newline, ⟨2, ⟨1, 2⟩⟩, 3⟩,
    ⟨.indent, ⟨4, ⟨2, 1⟩⟩, 4⟩, ⟨.mark (.opening .round), ⟨4, ⟨2, 1⟩⟩, 5⟩,
    ⟨.mark (.closing .round), ⟨6, ⟨3, 0⟩⟩, 7⟩, ⟨.newline, ⟨7, ⟨3, 1⟩⟩, 7⟩,
    ⟨.dedent, ⟨7, ⟨3, 1⟩⟩, 7⟩, ⟨.endOfFile, ⟨7, ⟨3, 1⟩⟩, 7⟩]

set_option maxRecDepth 4000 in
theorem wellLaid_of_tokens_block :
    tokens "a:\n (\n)" = .ok blockTokens ∧ WellLaid (blockTokens.map Token.kind) := by
  have htokens : tokens "a:\n (\n)" = .ok blockTokens := by cbv
  exact ⟨htokens, wellLaid_of_tokens htokens⟩

end Growth.Code
