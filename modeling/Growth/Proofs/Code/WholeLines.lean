import Growth.Proofs.Code.Lines

/-! Whole lines in front of a text. Behind them a line begins, or a bracket is open. A line without
a token changes neither, so it can stand between any two lines. -/

namespace Growth.Code

/-- The text is empty, or ends with the end of a line that does not go on. -/
def WholeLines (source : String) : Prop :=
  source = "" ∨ ∃ front : String, source = front ++ "\n" ∧ front.toList.getLast? ≠ some '\\'

/-- The text is one line, of blanks and perhaps a comment. -/
def BlankLine (source : String) : Prop :=
  ∃ blanks comment : List Char, source.toList = blanks ++ comment ++ ['\n'] ∧
    (∀ c ∈ blanks, isInlineBlank c = true) ∧ (∀ c ∈ comment.head?, c = '#') ∧ '\n' ∉ comment

/-! ### Lines of a text -/

theorem suffix_of_getLast? {lines : List (List Char)} {line : List Char}
    (h : line ∈ lines.getLast?) : line <:+ ['\n'].intercalate lines := by
  induction lines with
  | nil => cases h
  | cons first lines ih =>
    cases lines with
    | nil =>
      cases h
      simp
    | cons second lines =>
      rw [List.intercalate_cons_cons]
      exact (ih h).trans (List.suffix_append _ _)

/-- The lines of whole lines and of what comes behind them. -/
theorem WholeLines.splitOn {source : String} (h : WholeLines source) :
    ∃ lines : List (List Char), (∀ line ∈ lines.getLast?, line.getLast? ≠ some '\\') ∧
      ∀ rest, (source.toList ++ rest).splitOn '\n' = lines ++ rest.splitOn '\n' := by
  obtain rfl | ⟨front, rfl, hlast⟩ := h
  · exact ⟨[], nofun, fun rest => rfl⟩
  · refine ⟨front.toList.splitOn '\n', fun line hline hc => hlast ?_, fun rest => ?_⟩
    · have hsuffix := suffix_of_getLast? hline
      rw [List.intercalate_splitOn] at hsuffix
      exact getLast?_of_suffix hsuffix hc
    · rw [String.toList_append, List.append_assoc]
      exact List.splitOn_append_cons_self _ _

/-! ### Lines with their ends -/

namespace Stand

/-- The kinds of the tokens of lines that all have ends, and where the next line is read. -/
def run : Stand → List (List Char) → Except ScanError (List Kind × Stand)
  | σ, [] => .ok ([], σ)
  | σ, line :: lines =>
    (σ.read true line).bind fun r => (r.2.run lines).map (Prod.map (r.1 ++ ·) id)

theorem kinds_append {rest : List (List Char)} (hrest : rest ≠ []) (lines : List (List Char))
    (σ : Stand) : σ.kinds (lines ++ rest) =
      (σ.run lines).bind fun r => (r.2.kinds rest).map (r.1 ++ ·) := by
  induction lines generalizing σ with
  | nil =>
    rw [run, List.nil_append]
    cases hkinds : σ.kinds rest <;> simp [Except.bind, Except.map, hkinds]
  | cons line lines ih =>
    have hended : (!(lines ++ rest).isEmpty) = true := by simp [hrest]
    rw [List.cons_append, kinds, run, hended]
    cases σ.read true line with
    | error e => rfl
    | ok r =>
      change (r.2.kinds (lines ++ rest)).map _ = _
      rw [ih]
      cases hrun : r.2.run lines with
      | error e => simp [Except.bind, Except.map, hrun]
      | ok r' => cases hkinds : r'.2.kinds rest <;> simp [Except.bind, Except.map, hrun, hkinds]

/-- A line begins here, or a bracket is open. -/
def Fresh : Stand → Prop
  | starting _ => True
  | inside bs _ _ => bs ≠ []

end Stand

section

variable {σ : Stand} {line : List Char} {lines : List (List Char)} {r : List Kind × Stand}

theorem Words.fresh_behind {r : Words} (h : r.continued = false) (ws : List Nat)
    (hasTokens : Bool) : (r.behind true ws hasTokens).2.Fresh := by
  unfold Words.behind
  split
  · trivial
  · rename_i hbrackets
    simpa [h, Stand.Fresh] using hbrackets

theorem not_continued {ended : Bool} {bs : List Bracket} {cs : List Char} {r : Words}
    (h : words ended bs cs = .ok r) (hlast : cs.getLast? ≠ some '\\') : r.continued = false := by
  rw [← Bool.not_eq_true]
  exact fun hc => hlast ((of_words h).2 hc)

theorem Stand.fresh_of_read (hlast : line.getLast? ≠ some '\\') (h : σ.read true line = .ok r) :
    r.2.Fresh := by
  cases σ with
  | inside bs ws hasTokens =>
    obtain ⟨r, hr, rfl⟩ := map_eq_ok_iff.mp h
    exact Words.fresh_behind (not_continued hr hlast) ws hasTokens
  | starting ws =>
    rw [read] at h
    split at h
    · cases h
      trivial
    · obtain ⟨m, -, h⟩ := bind_eq_ok_iff.mp h
      obtain ⟨r, hr, rfl⟩ := map_eq_ok_iff.mp h
      obtain ⟨r, hwords, rfl⟩ := map_eq_ok_iff.mp hr
      refine Words.fresh_behind (not_continued hwords fun hc => hlast ?_) m.2 false
      exact getLast?_of_suffix (List.dropWhile_suffix _) hc

/-- Lines that do not go on leave nothing but brackets open. -/
theorem Stand.fresh_of_run (hσ : lines = [] → σ.Fresh)
    (hlast : ∀ line ∈ lines.getLast?, line.getLast? ≠ some '\\') (h : σ.run lines = .ok r) :
    r.2.Fresh := by
  induction lines generalizing σ r with
  | nil =>
    cases h
    exact hσ rfl
  | cons line lines ih =>
    obtain ⟨r, hread, h⟩ := bind_eq_ok_iff.mp h
    obtain ⟨r', hrun, rfl⟩ := map_eq_ok_iff.mp h
    refine ih (r := r') (fun hnil => ?_) (fun last hmem => hlast last ?_) hrun
    · subst hnil
      exact fresh_of_read (hlast line rfl) hread
    · rw [List.getLast?_cons, Option.mem_def.mp hmem]
      rfl

theorem words_tokenless (h : tokenless line = true) (ended : Bool) (bs : List Bracket) :
    words ended bs line = .ok ⟨[], bs, false⟩ := by
  induction line with
  | nil => rw [words]
  | cons c line ih =>
    rw [words]
    by_cases hblank : isInlineBlank c = true
    · rw [if_neg (ne_of_isInlineBlank hblank).2.1, if_pos hblank]
      rw [tokenless, List.dropWhile_cons_of_pos hblank] at h
      exact ih h
    · rw [tokenless, List.dropWhile_cons_of_neg hblank] at h
      rw [if_pos (by simpa using h)]

/-- A line without a token changes nothing between lines. -/
theorem Stand.kinds_cons (hσ : σ.Fresh) (hline : tokenless line = true) (hlines : lines ≠ []) :
    σ.kinds (line :: lines) = σ.kinds lines := by
  have hended : (!lines.isEmpty) = true := by simp [hlines]
  have hread : σ.read true line = .ok ([], σ) := by
    cases σ with
    | starting ws => rw [read, if_pos hline]
    | inside bs ws hasTokens =>
      obtain ⟨b, bs, rfl⟩ := List.exists_cons_of_ne_nil hσ
      rw [read, words_tokenless hline]
      simp [Except.map, Words.behind]
  rw [kinds, hended, hread]
  cases hkinds : σ.kinds lines <;> simp [Except.bind, Except.map, hkinds]

end

/-- A blank line or a comment between two lines is not seen in the tokens. -/
theorem kinds_blankLine_between {a b c : String} (ha : WholeLines a) (hc : BlankLine c) :
    kinds (a ++ c ++ b) = kinds (a ++ b) := by
  obtain ⟨lines, hlast, hlines⟩ := ha.splitOn
  obtain ⟨blanks, comment, htext, hblanks, hcomment, hnewline⟩ := hc
  have hline : '\n' ∉ blanks ++ comment := by
    rw [List.mem_append, not_or]
    exact ⟨fun hmem => (ne_of_isInlineBlank (hblanks _ hmem)).1 rfl, hnewline⟩
  have htokenless : tokenless (blanks ++ comment) = true := by
    rw [tokenless, List.dropWhile_append_of_pos hblanks]
    cases comment with
    | nil => rfl
    | cons c comment =>
      obtain rfl := hcomment c rfl
      rfl
  have hne : b.toList.splitOn '\n' ≠ [] := List.splitOn_ne_nil _ _
  rw [kinds_eq_lines, kinds_eq_lines, String.append_assoc, String.toList_append, hlines,
    String.toList_append, htext, List.append_assoc, List.singleton_append,
    List.splitOn_append_cons_self_of_not_mem hline, String.toList_append, hlines,
    Stand.kinds_append (List.cons_ne_nil _ _), Stand.kinds_append hne]
  cases hrun : (Stand.starting []).run lines with
  | error e => rfl
  | ok r =>
    have hfresh := Stand.fresh_of_run (σ := .starting []) (fun _ => trivial) hlast hrun
    change (r.2.kinds _).map _ = (r.2.kinds _).map _
    rw [Stand.kinds_cons hfresh htokenless hne]

/-- A comment inside brackets, in front of the line that closes them. -/
theorem kinds_blankLine_between_brackets :
    kinds ("if a:\n  f(\n" ++ "\t # g\n" ++ ")\n") = kinds ("if a:\n  f(\n" ++ ")\n") := by
  have hwhole : WholeLines "if a:\n  f(\n" := .inr ⟨"if a:\n  f(", rfl, by simp⟩
  have hblank : BlankLine "\t # g\n" :=
    ⟨['\t', ' '], ['#', ' ', 'g'], rfl, by simp [isInlineBlank], by simp, by decide⟩
  exact kinds_blankLine_between hwhole hblank

end Growth.Code
