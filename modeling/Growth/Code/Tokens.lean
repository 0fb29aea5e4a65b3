import Growth.Code.Scanner

/-! All tokens of a text. Every token but the one for the end brings a scanner nearer to that end:
it shortens the text, reports the end, leaves the beginning of a line, or takes one of the pending
tokens. -/

namespace Growth.Code

theorem numeral_ne_nil {c : Char} (h : c.isDigit = true ∨ c = '.') (cs : List Char) :
    (numeral false false (c :: cs)).1 ≠ [] := by
  rcases h with h | rfl <;> simp [numeral, *]

theorem mark?_ne_nil {cs chars : List Char} {m : Mark} (h : mark? cs = some (chars, m)) :
    chars ≠ [] := by
  have table : ∀ entry ∈ Mark.table, entry.1 ≠ [] := by decide
  exact table _ (List.mem_of_find?_eq_some h)

theorem lexeme_token_ne_nil {c : Char} {cs chars : List Char} {kind : Kind}
    (h : lexeme c cs = .token kind chars) : chars ≠ [] := by
  unfold lexeme at h
  split at h
  · split at h <;> simp at h
    simp [← h.2]
  split at h
  · simp at h
    simp [← h.2]
  split at h
  · rename_i number
    have := numeral_ne_nil (c := c) (by simp at number; grind) cs
    dsimp only at h
    split at h <;> simp at h
    exact h.2 ▸ this
  · split at h <;> simp at h

theorem lexeme_sign_ne_nil {c : Char} {cs chars : List Char} {m : Mark}
    (h : lexeme c cs = .sign m chars) : chars ≠ [] := by
  unfold lexeme at h
  split at h
  · split at h <;> simp at h
  split at h
  · simp at h
  split at h
  · dsimp only at h
    split at h <;> simp at h
  · split at h <;> simp at h
    rename_i found
    exact h.2 ▸ mark?_ne_nil found

namespace Scanner

theorem length_skip (s : Scanner) (chars : List Char) :
    (s.skip chars).rest.length = s.rest.length - chars.length := by
  simp [skip]

theorem length_take_lt {s s' : Scanner} {kind : Kind} {chars : List Char} {t : Token}
    (h : s.take kind chars = (.ok t, s')) (hrest : s.rest ≠ []) (hchars : chars ≠ []) :
    s'.rest.length < s.rest.length := by
  have h1 := List.length_pos_iff.mpr hrest
  have h2 := List.length_pos_iff.mpr hchars
  have h3 := s.length_skip chars
  simp only [take, Prod.mk.injEq] at h
  rw [← h.2]
  simp only
  omega

theorem length_takeSign_lt {s s' : Scanner} {m : Mark} {chars : List Char} {t : Token}
    (h : s.takeSign m chars = (.ok t, s')) (hrest : s.rest ≠ []) (hchars : chars ≠ []) :
    s'.rest.length < s.rest.length := by
  unfold takeSign at h
  split at h
  · rename_i b
    exact length_take_lt (s := { s with brackets := b :: s.brackets }) h hrest hchars
  · dsimp only at h
    split at h
    · exact length_take_lt (s := { s with brackets := s.brackets.tail }) h hrest hchars
    · simp at h
  · exact length_take_lt h hrest hchars

/-- A token at the end of the text comes after the end was reported. -/
theorem finish_eq {s s' : Scanner} {t : Token} (h : s.finish = (.ok t, s')) :
    s'.rest = s.rest ∧ s'.finished = true := by
  unfold finish deliver at h
  dsimp only at h
  split at h
  · simp only [Prod.mk.injEq] at h
    simp [← h.2, close]
  · split at h <;> simp only [Prod.mk.injEq] at h <;> simp [← h.2, close]

/-- A token in a line shortens the text, or reports its end. -/
theorem inLine_nearer {s s' : Scanner} {t : Token} (h : s.inLine = (.ok t, s')) :
    s'.rest.length < s.rest.length ∨ s'.rest.length ≤ s.rest.length ∧ s'.finished = true := by
  unfold inLine at h
  have hskip := s.length_skip (gap (!s.brackets.isEmpty) .blanks s.rest)
  generalize s.skip (gap (!s.brackets.isEmpty) .blanks s.rest) = s1 at h hskip
  dsimp only at h
  split at h
  · obtain ⟨h1, h2⟩ := finish_eq h
    exact .inr ⟨by rw [h1]; omega, h2⟩
  · rename_i c cs hrest
    have hne : s1.rest ≠ [] := by simp [hrest]
    have hpos := List.length_pos_iff.mpr hne
    left
    split at h
    · simp only [Prod.mk.injEq] at h
      rw [← h.2]
      have := s1.length_skip [c]
      simp only [List.length_singleton] at this
      simp only
      omega
    · split at h
      · rename_i e
        have := length_take_lt h hne (lexeme_token_ne_nil e)
        omega
      · rename_i e
        have := length_takeSign_lt h hne (lexeme_sign_ne_nil e)
        omega
      all_goals simp at h

/-- How far a scanner is from the end of its text, the first number counting most. -/
def distance (s : Scanner) : Nat × Nat × Nat × Nat :=
  (s.rest.length, (!s.finished).toNat, s.atLineStart.toNat, s.pending.length)

/-- A token that is not the one for the end brings a scanner nearer to that end. -/
theorem next_nearer {s s' : Scanner} {t : Token} (h : s.next = (.ok t, s'))
    (ht : t.kind ≠ .endOfFile) :
    Prod.Lex (· < ·) (Prod.Lex (· < ·) (Prod.Lex (· < ·) (· < ·))) s'.distance s.distance := by
  unfold next deliver at h
  split at h
  · rename_i pending hp
    simp only [Prod.mk.injEq] at h
    simp [← h.2, distance, hp, Prod.lex_def]
  · dsimp only at h
    split at h
    · simp only [Prod.mk.injEq, Except.ok.injEq] at h
      simp [← h.1, emptyToken] at ht
    · rename_i hfin
      simp only [Bool.not_eq_true] at hfin
      have close {a : Scanner} (h1 : a.rest.length ≤ s.rest.length)
          (h2 : a.inLine = (.ok t, s')) :
          Prod.Lex (· < ·) (Prod.Lex (· < ·) (Prod.Lex (· < ·) (· < ·))) s'.distance
            s.distance := by
        simp only [distance, Prod.lex_def, hfin]
        rcases inLine_nearer h2 with h3 | ⟨h3, h4⟩
        · left; omega
        · simp [h4]; omega
      split at h
      · rename_i hstart
        have hskip := s.length_skip (margin 0 false s.rest).1
        have hsame : (s.skip (margin 0 false s.rest).1).finished = s.finished := rfl
        generalize s.skip (margin 0 false s.rest).1 = s1 at h hskip hsame
        split at h
        · exact close (a := { s1 with atLineStart := false }) (by simp only; omega) h
        · unfold indented at h
          split at h
          · simp only [Prod.mk.injEq] at h
            simp only [← h.2, distance, Prod.lex_def, hfin, hsame, hstart]
            simp; omega
          · dsimp only at h
            split at h
            · unfold deliver at h
              split at h
              · simp only [Prod.mk.injEq] at h
                simp only [← h.2, distance, Prod.lex_def, hfin, hsame, hstart, Scanner.close]
                simp; omega
              · exact close (by simp [Scanner.close]; omega) h
            · simp at h
      · exact close (Nat.le_refl _) h

/-- The tokens from here to the end of the text. -/
def tokens (s : Scanner) : Except ScanError (List Token) :=
  match _ : s.next with
  | (.error e, _) => .error e
  | (.ok t, s') =>
    if _ : t.kind = .endOfFile then .ok [t]
    else s'.tokens.map (t :: ·)
termination_by s.distance
decreasing_by exact next_nearer ‹_› ‹_›

end Scanner

/-- The tokens of a text. -/
def tokens (source : String) : Except ScanError (List Token) :=
  (Scanner.ofText source).tokens

end Growth.Code
