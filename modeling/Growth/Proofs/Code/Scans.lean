import Growth.Code.Tokens

/-! From characters to kinds of tokens, piece by piece. A piece of a line is scanned as its kinds in
any state of the scanner inside a line, so long as what follows does not run into its last token. -/

namespace Growth.Code

/-- The error by itself, wherever it is. -/
def ScanError.unplaced : ScanError → ScanError
  | invalidDedent _ _ => .invalidDedent 0 0
  | unexpectedCharacter c _ => .unexpectedCharacter c .start
  | invalidNumber literal _ => .invalidNumber literal .start
  | unterminatedString _ => .unterminatedString .start
  | unbalancedBracket b _ => .unbalancedBracket b .start

/-- The brackets that are open behind a sign. -/
def Mark.brackets? (bs : List Bracket) : Mark → Except ScanError (List Bracket)
  | .opening b => .ok (b :: bs)
  | .closing b => if bs.head? = some b then .ok bs.tail else .error (.unbalancedBracket b .start)
  | _ => .ok bs

namespace Scanner

/-- From `s` on come tokens of the kinds `ks`, and then those that come from `s'` on. -/
def Leads (s : Scanner) (ks : List Kind) (s' : Scanner) : Prop :=
  ∃ ts, ts.map Token.kind = ks ∧ s.tokens = s'.tokens.map (ts ++ ·)

theorem tokens_of_next {s s' : Scanner} {t : Token} (h : s.next = (.ok t, s'))
    (ht : t.kind ≠ .endOfFile) : s.tokens = s'.tokens.map (t :: ·) := by
  rw [tokens]
  split
  · rename_i heq
    rw [h] at heq
    cases heq
  · rename_i heq
    rw [h] at heq
    cases heq
    rw [dif_neg ht]

theorem tokens_of_end {s s' : Scanner} {t : Token} (h : s.next = (.ok t, s'))
    (ht : t.kind = .endOfFile) : s.tokens = .ok [t] := by
  rw [tokens]
  split
  · rename_i heq
    rw [h] at heq
    cases heq
  · rename_i heq
    rw [h] at heq
    cases heq
    rw [dif_pos ht]

/-- The tokens are known from the first of them and the state after it. -/
theorem tokens_congr {s s' : Scanner} (h : s.next = s'.next) : s.tokens = s'.tokens := by
  cases hn : s.next with
  | mk outcome after =>
    cases outcome with
    | ok t =>
      by_cases ht : t.kind = .endOfFile
      · rw [tokens_of_end hn ht, tokens_of_end (h.symm.trans hn) ht]
      · rw [tokens_of_next hn ht, tokens_of_next (s := s') (h.symm.trans hn) ht]
    | error e =>
      rw [tokens, tokens]
      split <;> rename_i heq <;> rw [hn] at heq <;> cases heq
      split <;> rename_i heq <;> rw [← h, hn] at heq <;> cases heq
      rfl

namespace Leads

variable {s s' s'' : Scanner} {ks ks' : List Kind}

theorem refl (s : Scanner) : s.Leads [] s :=
  ⟨[], rfl, by cases s.tokens <;> rfl⟩

theorem trans (h : s.Leads ks s') (h' : s'.Leads ks' s'') : s.Leads (ks ++ ks') s'' := by
  obtain ⟨ts, rfl, hts⟩ := h
  obtain ⟨ts', rfl, hts'⟩ := h'
  refine ⟨ts ++ ts', List.map_append, ?_⟩
  rw [hts, hts']
  cases s''.tokens with
  | error e => rfl
  | ok more => simp [Except.map]

theorem of_next {t : Token} (h : s.next = (.ok t, s')) (ht : t.kind ≠ .endOfFile) :
    s.Leads [t.kind] s' :=
  ⟨[t], rfl, tokens_of_next h ht⟩

/-- Where nothing is passed without a token, the same tokens come from both ends. -/
theorem of_skipped (h : s.Leads ks s'') (h' : s'.Leads [] s'') : s.Leads ks s' := by
  obtain ⟨ts, hts, htokens⟩ := h
  obtain ⟨ts', hts', htokens'⟩ := h'
  obtain rfl := List.map_eq_nil_iff.mp hts'
  refine ⟨ts, hts, ?_⟩
  rw [htokens, htokens']
  cases s''.tokens <;> rfl

theorem of_next_eq (h : s.next = s'.next) : s.Leads [] s' :=
  ⟨[], rfl, by rw [tokens_congr h]; cases s'.tokens <;> rfl⟩

end Leads

/-- The scanner is inside a line before `rest`, with the brackets and blocks that are open. -/
structure Inside (s : Scanner) (brackets : List Bracket) (widths : List Nat) (rest : List Char) :
    Prop where
  rest : s.rest = rest
  brackets : s.brackets = brackets
  widths : s.widths = widths
  pending : s.pending = []
  atLineStart : s.atLineStart = false
  finished : s.finished = false

variable {s : Scanner} {bs : List Bracket} {w : List Nat} {rest : List Char}

theorem Inside.next (h : s.Inside bs w rest) : s.next = s.inLine := by
  simp [Scanner.next, deliver, h.pending, h.finished, h.atLineStart]

theorem Inside.skip {cs : List Char} (h : s.Inside bs w (cs ++ rest)) :
    (s.skip cs).Inside bs w rest := by
  refine ⟨?_, h.brackets, h.widths, h.pending, h.atLineStart, h.finished⟩
  simp [Scanner.skip, h.rest]

/-- The characters between tokens that a piece may begin with. -/
def startsGap (c : Char) : Bool :=
  c == '\n' || c == '#' || isInlineBlank c || c == '\\'

theorem gap_eq_nil {c : Char} (hc : startsGap c = false) (b : Bool) (cs : List Char) :
    gap b .blanks (c :: cs) = [] := by
  simp only [startsGap, Bool.or_eq_false_iff] at hc
  simp [gap, hc]

/-- The outcome of what stands at the beginning of the rest. -/
def takeLexeme (s : Scanner) : Lexeme → Except ScanError Token × Scanner
  | .token kind chars => s.take kind chars
  | .sign m chars => s.takeSign m chars
  | .badNumber chars =>
    (.error (.invalidNumber (String.ofList chars) s.place.position), s.skip chars)
  | .openString chars => (.error (.unterminatedString s.place.position), s.skip chars)
  | .stray c => (.error (.unexpectedCharacter c s.place.position), s)

/-- Inside a line, what stands at the beginning of the rest is next. -/
theorem Inside.inLine_of_gap {c : Char} {cs : List Char} (h : s.Inside bs w (c :: cs))
    (hc : c ≠ '\n') (hgap : gap (!bs.isEmpty) .blanks (c :: cs) = []) :
    s.inLine = s.takeLexeme (lexeme c cs) := by
  have hskip : s.skip (gap (!s.brackets.isEmpty) .blanks s.rest) = s := by
    rw [h.rest, h.brackets, hgap]
    rfl
  unfold inLine
  dsimp only
  rw [hskip, h.rest]
  dsimp only
  rw [beq_eq_false_iff_ne.mpr hc]
  rfl

theorem Inside.inLine_eq {c : Char} {cs : List Char} (h : s.Inside bs w (c :: cs))
    (hc : startsGap c = false) : s.inLine = s.takeLexeme (lexeme c cs) := by
  refine h.inLine_of_gap ?_ (gap_eq_nil hc _ cs)
  rintro rfl
  cases hc

theorem skip_append (s : Scanner) (chars more : List Char) :
    s.skip (chars ++ more) = (s.skip chars).skip more := by
  simp [skip, Place.after]

/-- What stands between tokens is passed without a token. -/
theorem Inside.leads_gap {chars : List Char} (h : s.Inside bs w (chars ++ rest))
    (hgap : gap (!bs.isEmpty) .blanks (chars ++ rest) =
      chars ++ gap (!bs.isEmpty) .blanks rest) : s.Leads [] (s.skip chars) := by
  have hs : (s.skip chars).Inside bs w rest := h.skip
  refine .of_next_eq ?_
  rw [h.next, hs.next, inLine, inLine, h.rest, hs.rest, h.brackets, hs.brackets, hgap, skip_append]

/-- A token is passed with the characters that it takes up. -/
theorem Inside.taken {cs chars : List Char} (h : s.Inside bs w (cs ++ rest)) (hchars : chars <+: cs)
    (bs' : List Bracket) :
    Inside { s.skip chars with brackets := bs', lineHasTokens := true } bs' w
      (cs.drop chars.length ++ rest) := by
  refine ⟨?_, rfl, h.widths, h.pending, h.atLineStart, h.finished⟩
  change s.rest.drop chars.length = _
  rw [h.rest, List.drop_append_of_le_length hchars.length_le]

theorem takeSign_of_ok {m : Mark} (h : m.brackets? s.brackets = .ok bs) (chars : List Char) :
    s.takeSign m chars = (.ok ⟨.mark m, s.place, (s.skip chars).place.offset⟩,
      { s.skip chars with brackets := bs, lineHasTokens := true }) := by
  cases m with
  | closing b =>
    rw [Mark.brackets?] at h
    split at h
    · rename_i hb
      cases h
      rw [takeSign, if_pos hb]
      rfl
    · cases h
  | _ =>
    cases h
    rfl

theorem takeSign_of_error {m : Mark} {e : ScanError} (h : m.brackets? s.brackets = .error e)
    (chars : List Char) : ∃ e' s', s.takeSign m chars = (.error e', s') ∧ e'.unplaced = e := by
  cases m with
  | closing b =>
    rw [Mark.brackets?] at h
    split at h
    · cases h
    · rename_i hb
      cases h
      exact ⟨_, _, if_neg hb, rfl⟩
  | _ => cases h

end Scanner

open Scanner

/-- The characters `cs` are scanned as `ks`, from `bs` open brackets to `bs'`, before any text that
`F` allows to follow. -/
def Scans (F : List Char → Prop) (bs : List Bracket) (cs : List Char) (ks : List Kind)
    (bs' : List Bracket) : Prop :=
  ∀ (s : Scanner) (w : List Nat) (rest : List Char), s.Inside bs w (cs ++ rest) → F rest →
    ∃ s', s.Leads ks s' ∧ s'.Inside bs' w rest ∧
      s'.lineHasTokens = (s.lineHasTokens || !ks.isEmpty)

namespace Scans

variable {F F' : List Char → Prop} {bs bs' bs'' : List Bracket} {cs cs' : List Char}
  {ks ks' : List Kind}

theorem nil : Scans F bs [] [] bs := by
  intro s w rest h _
  exact ⟨s, .refl s, h, by simp⟩

theorem append (h : Scans F bs cs ks bs') (h' : Scans F' bs' cs' ks' bs'')
    (hF : ∀ rest, F' rest → F (cs' ++ rest)) : Scans F' bs (cs ++ cs') (ks ++ ks') bs'' := by
  intro s w rest hs hrest
  rw [List.append_assoc] at hs
  obtain ⟨s₁, hl₁, hs₁, ht₁⟩ := h s w _ hs (hF rest hrest)
  obtain ⟨s₂, hl₂, hs₂, ht₂⟩ := h' s₁ w rest hs₁ hrest
  refine ⟨s₂, hl₁.trans hl₂, hs₂, ?_⟩
  rw [ht₂, ht₁]
  cases ks <;> simp

theorem mono (h : Scans F bs cs ks bs') (hF : ∀ rest, F' rest → F rest) :
    Scans F' bs cs ks bs' :=
  fun s w rest hs hrest => h s w rest hs (hF rest hrest)

/-- A blank is no token. -/
theorem blank : Scans F bs [' '] [] bs := by
  intro s w rest h _
  refine ⟨s.skip [' '], h.leads_gap ?_, h.skip, by simp [skip]⟩
  simp [gap, isInlineBlank]

/-- A token that is a token by its characters alone. -/
theorem token {c : Char} {kind : Kind} (hc : startsGap c = false) (hk : kind ≠ .endOfFile)
    (h : ∀ rest, F rest → lexeme c (cs ++ rest) = .token kind (c :: cs)) :
    Scans F bs (c :: cs) [kind] bs := by
  intro s w rest hs hrest
  have htake := hs.inLine_eq hc
  rw [List.append_eq, h rest hrest] at htake
  refine ⟨{ s.skip (c :: cs) with brackets := bs, lineHasTokens := true },
    .of_next (t := ⟨kind, s.place, (s.skip (c :: cs)).place.offset⟩) ?_ hk, ?_, by simp⟩
  · rw [hs.next, htake, ← hs.brackets]
    rfl
  · simpa using hs.taken (List.prefix_refl _) bs

/-- A sign that is one by its characters alone, and no bracket that does not match. -/
theorem sign {c : Char} {m : Mark} (hc : startsGap c = false) (hm : m.brackets? bs = .ok bs')
    (h : ∀ rest, F rest → lexeme c (cs ++ rest) = .sign m (c :: cs)) :
    Scans F bs (c :: cs) [.mark m] bs' := by
  intro s w rest hs hrest
  have htake := hs.inLine_eq hc
  rw [List.append_eq, h rest hrest] at htake
  refine ⟨{ s.skip (c :: cs) with brackets := bs', lineHasTokens := true },
    .of_next (t := ⟨.mark m, s.place, (s.skip (c :: cs)).place.offset⟩) ?_ nofun, ?_, by simp⟩
  · rw [hs.next, htake]
    exact takeSign_of_ok (hs.brackets ▸ hm) (c :: cs)
  · simpa using hs.taken (List.prefix_refl _) bs'

end Scans

end Growth.Code
