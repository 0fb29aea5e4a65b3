import Growth.Proofs.Code.Lexemes

/-! The characters between tokens, piece by piece: blanks, comments, line ends after a backslash,
and the line ends that end no line of tokens. -/

namespace Growth.Code

/-- No character of the line is left. -/
def LineOver (cs : List Char) : Prop :=
  ∀ c ∈ cs.head?, c = '\n'

theorem LineOver.nil : LineOver [] := nofun

theorem LineOver.newline (cs : List Char) : LineOver ('\n' :: cs) := by
  rintro c ⟨⟩
  rfl

theorem lineOver_cases {cs : List Char} (h : LineOver cs) :
    cs = [] ∨ ∃ more, cs = '\n' :: more := by
  cases cs with
  | nil => exact .inl rfl
  | cons c cs =>
    obtain rfl := h c rfl
    exact .inr ⟨cs, rfl⟩

theorem lineOver_dropWhile (cs : List Char) : LineOver (cs.dropWhile (· ≠ '\n')) := by
  intro c hc
  have hnot := List.head?_dropWhile_not (· ≠ '\n') cs
  rw [Option.mem_def.mp hc] at hnot
  simpa using hnot

/-- A text is the rest of a line, and what comes behind it. -/
theorem exists_lineOver (cs : List Char) :
    ∃ line rest, '\n' ∉ line ∧ LineOver rest ∧ cs = line ++ rest := by
  refine ⟨cs.takeWhile (· ≠ '\n'), _, fun h => ?_, lineOver_dropWhile cs,
    List.takeWhile_append_dropWhile.symm⟩
  simpa using List.mem_takeWhile_imp h

theorem ne_of_isInlineBlank {c : Char} (h : isInlineBlank c = true) :
    c ≠ '\n' ∧ c ≠ '#' ∧ c ≠ '\\' := by
  refine ⟨?_, ?_, ?_⟩ <;> rintro rfl <;> exact absurd h (by decide)

/-! ### Inside lines -/

section Gap

variable {b : Bool} {c : Char} {cs line : List Char}

theorem gap_blank (h : isInlineBlank c = true) (cs : List Char) :
    gap b .blanks (c :: cs) = c :: gap b .blanks cs := by
  obtain ⟨hn, hh, -⟩ := ne_of_isInlineBlank h
  simp [gap, h, hn, hh]

theorem gap_newline (cs : List Char) :
    gap b .blanks ('\n' :: cs) = if b then '\n' :: gap b .blanks cs else [] := by
  simp [gap]

theorem gap_continued (cs : List Char) :
    gap b .blanks ('\\' :: '\n' :: cs) = '\\' :: '\n' :: gap b .blanks cs := by
  simp [gap, isInlineBlank]

theorem gap_comment (h : '\n' ∉ line) (hcs : LineOver cs) :
    gap b .blanks ('#' :: (line ++ cs)) = '#' :: (line ++ gap b .blanks cs) := by
  have hline : gap b .comment (line ++ cs) = line ++ gap b .blanks cs := by
    induction line with
    | nil =>
      obtain rfl | ⟨more, rfl⟩ := lineOver_cases hcs
      · rfl
      · simp [gap]
    | cons c line ih =>
      rw [List.mem_cons, not_or] at h
      simp [gap, Ne.symm h.1, ih h.2]
  rw [gap, hline]
  rfl

theorem gap_eq_nil_of_ne (hc : c ≠ '\n') (hh : c ≠ '#') (hblank : isInlineBlank c = false)
    (hb : c = '\\' → cs.head? ≠ some '\n') : gap b .blanks (c :: cs) = [] := by
  simpa [gap, hc, hh, hblank] using hb

/-- What is to be shown of a text is shown by the way the characters between tokens are passed. -/
theorem gap_induction {P : List Char → Prop} (b : Bool) (stop : ∀ cs, gap b .blanks cs = [] → P cs)
    (blank : ∀ c cs, isInlineBlank c = true → P cs → P (c :: cs))
    (comment : ∀ line cs, '\n' ∉ line → LineOver cs → P cs → P ('#' :: (line ++ cs)))
    (continued : ∀ cs, P cs → P ('\\' :: '\n' :: cs))
    (lineEnd : b = true → ∀ cs, P cs → P ('\n' :: cs)) (cs : List Char) : P cs := by
  induction h : cs.length using Nat.strong_induction_on generalizing cs with
  | _ n ih =>
    have ih (ds : List Char) (hds : ds.length < cs.length) : P ds := ih _ (h ▸ hds) ds rfl
    cases cs with
    | nil => exact stop [] rfl
    | cons c cs =>
      by_cases hn : c = '\n'
      · subst hn
        cases b with
        | true => exact lineEnd rfl cs (ih cs (Nat.lt_succ_self _))
        | false => exact stop _ (gap_newline cs)
      by_cases hh : c = '#'
      · subst hh
        obtain ⟨line, rest, hline, hrest, rfl⟩ := exists_lineOver cs
        refine comment line rest hline hrest (ih rest ?_)
        simp only [List.length_cons, List.length_append]
        omega
      by_cases hblank : isInlineBlank c = true
      · exact blank c cs hblank (ih cs (Nat.lt_succ_self _))
      by_cases hb : c = '\\' ∧ cs.head? = some '\n'
      · obtain ⟨rfl, hhead⟩ := hb
        obtain ⟨rest, rfl⟩ := List.head?_eq_some_iff.mp hhead
        exact continued rest (ih rest (by simp only [List.length_cons]; omega))
      · refine stop _ (gap_eq_nil_of_ne hn hh (by simpa using hblank) fun hc hhead => ?_)
        exact hb ⟨hc, hhead⟩

theorem gap_isPrefix (b : Bool) (cs : List Char) : gap b .blanks cs <+: cs := by
  induction cs using gap_induction b with
  | stop cs h => simp [h]
  | blank c cs h ih => simpa [gap_blank h] using ih
  | comment line cs h hcs ih => simpa [gap_comment h hcs] using ih
  | continued cs ih => simpa [gap_continued] using ih
  | lineEnd h cs ih =>
    subst h
    simpa [gap_newline] using ih

end Gap

/-! ### At the beginning of lines -/

section Margin

variable {width : Nat} {c : Char} {cs line : List Char}

theorem margin_nil (width : Nat) (comment : Bool) : margin width comment [] = ([], none) := rfl

theorem margin_cons (width : Nat) (comment : Bool) (c : Char) (cs : List Char) :
    margin width comment (c :: cs) =
      if c == '\n' then (c :: (margin 0 false cs).1, (margin 0 false cs).2)
      else if comment || c == '#' then (c :: (margin width true cs).1, (margin width true cs).2)
      else if isInlineBlank c then
        (c :: (margin (widened width c) false cs).1, (margin (widened width c) false cs).2)
      else ([], some width) := rfl

theorem margin_blank (h : isInlineBlank c = true) (width : Nat) (cs : List Char) :
    margin width false (c :: cs) =
      (c :: (margin (widened width c) false cs).1, (margin (widened width c) false cs).2) := by
  obtain ⟨hn, hh, -⟩ := ne_of_isInlineBlank h
  simp [margin_cons, h, hn, hh]

theorem margin_newline (width : Nat) (cs : List Char) :
    margin width false ('\n' :: cs) = ('\n' :: (margin 0 false cs).1, (margin 0 false cs).2) :=
  margin_cons width false '\n' cs

theorem margin_comment (h : '\n' ∉ line) (hcs : LineOver cs) (width : Nat) :
    margin width false ('#' :: (line ++ cs)) =
      ('#' :: (line ++ (margin width false cs).1), (margin width false cs).2) := by
  have hline : margin width true (line ++ cs) =
      (line ++ (margin width false cs).1, (margin width false cs).2) := by
    induction line with
    | nil =>
      obtain rfl | ⟨more, rfl⟩ := lineOver_cases hcs
      · rfl
      · simp [margin_cons]
    | cons c line ih =>
      rw [List.mem_cons, not_or] at h
      simp [margin_cons, Ne.symm h.1, ih h.2]
  simp [margin_cons, hline]

theorem margin_of_ne (hc : c ≠ '\n') (hh : c ≠ '#') (hblank : isInlineBlank c = false)
    (width : Nat) (cs : List Char) : margin width false (c :: cs) = ([], some width) := by
  simp [margin_cons, hc, hh, hblank]

/-- What is to be shown of a text is shown by the way the characters in front of lines are
passed. -/
theorem margin_induction {P : Nat → List Char → Prop} (nil : ∀ width, P width [])
    (blank : ∀ width c cs, isInlineBlank c = true → P (widened width c) cs → P width (c :: cs))
    (comment : ∀ width line cs, '\n' ∉ line → LineOver cs → P width cs →
      P width ('#' :: (line ++ cs)))
    (newline : ∀ width cs, P 0 cs → P width ('\n' :: cs))
    (token : ∀ width c cs, c ≠ '\n' → c ≠ '#' → isInlineBlank c = false → P width (c :: cs))
    (width : Nat) (cs : List Char) : P width cs := by
  induction h : cs.length using Nat.strong_induction_on generalizing width cs with
  | _ n ih =>
    have ih (width : Nat) (ds : List Char) (hds : ds.length < cs.length) : P width ds :=
      ih _ (h ▸ hds) width ds rfl
    cases cs with
    | nil => exact nil width
    | cons c cs =>
      by_cases hn : c = '\n'
      · subst hn
        exact newline width cs (ih 0 cs (Nat.lt_succ_self _))
      by_cases hh : c = '#'
      · subst hh
        obtain ⟨line, rest, hline, hrest, rfl⟩ := exists_lineOver cs
        refine comment width line rest hline hrest (ih width rest ?_)
        simp only [List.length_cons, List.length_append]
        omega
      by_cases hblank : isInlineBlank c = true
      · exact blank width c cs hblank (ih _ cs (Nat.lt_succ_self _))
      · exact token width c cs hn hh (by simpa using hblank)

theorem margin_isPrefix (width : Nat) (cs : List Char) : (margin width false cs).1 <+: cs := by
  induction width, cs using margin_induction with
  | nil => exact List.nil_prefix
  | blank width c cs h ih => simpa [margin_blank h] using ih
  | comment width line cs h hcs ih => simpa [margin_comment h hcs] using ih
  | newline width cs ih => simpa [margin_newline] using ih
  | token width c cs hc hh hblank => simp [margin_of_ne hc hh hblank]

end Margin

end Growth.Code
