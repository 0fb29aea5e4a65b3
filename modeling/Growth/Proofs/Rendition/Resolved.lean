import Growth.Proofs.Rendition.Blocks

/-! Texts that stay as they are when their marks are resolved. Resolving can itself make a mark of a
line, by trimming the text, and an end of a line of carriage returns. Where it makes neither, resolving
again changes nothing; where it makes one, it does. It makes neither in generated code. -/

namespace Growth.Pseudo

namespace Layout

/-! ### Squeezed texts -/

theorem squeezed_squeezed (cs : List Char) : squeezed (squeezed cs) = squeezed cs := by
  induction cs with
  | nil => rfl
  | cons c cs ih =>
    rw [squeezed_cons]
    split
    · exact ih
    · rename_i h
      rw [squeezed_cons, head?_squeezed, if_neg h, ih]

/-- Ends of lines keep spaces apart. -/
theorem squeezed_append_newline (cs rest : List Char) :
    squeezed (cs ++ '\n' :: rest) = squeezed cs ++ '\n' :: squeezed rest := by
  induction cs with
  | nil => exact squeezed_of_ne (by decide) rest
  | cons c cs ih =>
    have hhead : (cs ++ '\n' :: rest).head? = some ' ' ↔ cs.head? = some ' ' := by
      cases cs with
      | nil => simp
      | cons d cs => rfl
    rw [List.cons_append, squeezed_cons, squeezed_cons, ih]
    by_cases h : c = ' ' ∧ cs.head? = some ' '
    · rw [if_pos h, if_pos ⟨h.1, hhead.mpr h.2⟩]
    · rw [if_neg h, if_neg fun h' => h ⟨h'.1, hhead.mp h'.2⟩, List.cons_append]

theorem squeezed_replicate_tab (n : Nat) (cs : List Char) :
    squeezed (List.replicate n '\t' ++ cs) = List.replicate n '\t' ++ squeezed cs := by
  induction n with
  | zero => rfl
  | succ n ih =>
    rw [List.replicate_succ, List.cons_append, squeezed_of_ne (by decide), ih, List.cons_append]

theorem squeezed_unlines (ls : List (List Char)) :
    squeezed (Text.unlines ls) = Text.unlines (ls.map squeezed) := by
  induction ls with
  | nil => rfl
  | cons l ls ih =>
    rw [Text.unlines_cons, squeezed_append_newline, ih, List.map_cons, Text.unlines_cons]

theorem squeezed_eq_withoutBefore (cs : List Char) :
    squeezed cs = Text.withoutBefore ' ' ' ' cs := by
  induction cs with
  | nil => rfl
  | cons c cs ih => rw [squeezed_cons, Text.withoutBefore_cons, ih]

theorem squeezed_sublist (cs : List Char) : (squeezed cs).Sublist cs := by
  rw [squeezed_eq_withoutBefore]
  exact Text.withoutBefore_sublist cs

theorem count_squeezed {c : Char} (hc : c ≠ ' ') (cs : List Char) :
    (squeezed cs).count c = cs.count c := by
  rw [squeezed_eq_withoutBefore]
  exact Text.count_withoutBefore hc cs

/-- A text is squeezed where no two spaces stand side by side. -/
theorem squeezed_eq_self_iff {cs : List Char} : squeezed cs = cs ↔ ¬[' ', ' '] <:+: cs := by
  rw [squeezed_eq_withoutBefore]
  exact Text.withoutBefore_eq_self_iff

theorem squeezed_of_not_mem {cs : List Char} (h : ' ' ∉ cs) : squeezed cs = cs :=
  squeezed_eq_self_iff.mpr fun hpair => h (hpair.subset (List.mem_cons_self ..))

theorem squeezed_of_isInfix {cs ds : List Char} (h : squeezed cs = cs) (hds : ds <:+: cs) :
    squeezed ds = ds :=
  squeezed_eq_self_iff.mpr fun hpair => squeezed_eq_self_iff.mp h (hpair.trans hds)

/-! ### Lines that are laid out -/

instance (l : List Char) : Decidable (IsMark l) :=
  inferInstanceAs (Decidable (_ ∨ _))

/-- Squeezing makes no mark of a line. -/
theorem isMark_squeezed {l : List Char} (h : IsMark (squeezed l)) : IsMark l := by
  by_cases hblank : ' ' ∈ l
  · exact absurd h (not_isMark_of_mem (mem_squeezed.mpr hblank) (by decide))
  · rwa [squeezed_of_not_mem hblank] at h

theorem squeezed_laid (n : Nat) (ls : List (List Char)) : squeezed (laid n ls) = laid n ls := by
  induction ls generalizing n with
  | nil => rfl
  | cons l ls ih =>
    by_cases hmark : IsMark l
    · rw [laid_mark hmark, ih]
    · rw [laid_unmarked hmark, List.append_assoc, squeezed_replicate_tab,
        squeezed_append_newline, squeezed_squeezed, ih]

/-- Nothing is laid out but what is in the lines, tabs and ends of lines. -/
theorem mem_laid {c : Char} {n : Nat} {ls : List (List Char)} (h : c ∈ laid n ls) :
    c = '\t' ∨ c = '\n' ∨ ∃ l ∈ ls, c ∈ l := by
  induction ls generalizing n with
  | nil => cases h
  | cons l ls ih =>
    have hbehind {n : Nat} (h : c ∈ laid n ls) :
        c = '\t' ∨ c = '\n' ∨ ∃ l' ∈ l :: ls, c ∈ l' := by
      rcases ih h with htab | hnewline | ⟨l', hl', hc⟩
      · exact .inl htab
      · exact .inr (.inl hnewline)
      · exact .inr (.inr ⟨l', List.mem_cons_of_mem l hl', hc⟩)
    by_cases hmark : IsMark l
    · rw [laid_mark hmark] at h
      exact hbehind h
    · rw [laid_unmarked hmark, List.mem_append, List.mem_append, List.mem_cons,
        mem_squeezed] at h
      rcases h with (htab | hl) | hnewline | h
      · exact .inl (List.eq_of_mem_replicate htab)
      · exact .inr (.inr ⟨l, List.mem_cons_self .., hl⟩)
      · exact .inr (.inl hnewline)
      · exact hbehind h

/-- Lines that are no marks are laid out without tabs. -/
theorem laid_of_unmarked {ls : List (List Char)} (h : ∀ l ∈ ls, ¬IsMark l) :
    laid 0 ls = squeezed (Text.unlines ls) := by
  rw [squeezed_unlines]
  induction ls with
  | nil => rfl
  | cons l ls ih =>
    obtain ⟨hmark, hls⟩ := List.forall_mem_cons.mp h
    rw [laid_unmarked hmark, ih hls, List.map_cons, Text.unlines_cons, List.replicate_zero,
      List.nil_append]

/-- Each line that is laid out has an end, and no mark has one. -/
theorem count_newline_laid (n : Nat) (ls : List (List Char)) :
    (laid n ls).count '\n' + ls.countP (decide <| IsMark ·) = (Text.unlines ls).count '\n' := by
  induction ls generalizing n with
  | nil => rfl
  | cons l ls ih =>
    rw [Text.unlines_cons, List.count_append, List.count_cons_self, List.countP_cons]
    by_cases hmark : IsMark l
    · have hl : l.count '\n' = 0 := by
        rcases hmark with rfl | rfl
        · decide
        · decide
      have hrest := ih (deepened n l)
      rw [laid_mark hmark, if_pos (by simpa using hmark), hl]
      omega
    · have hrest := ih n
      have htabs : (List.replicate n '\t').count '\n' = 0 :=
        List.count_eq_zero.mpr fun h => absurd (List.eq_of_mem_replicate h) (by decide)
      rw [laid_unmarked hmark, List.count_append, List.count_append, List.count_cons_self,
        count_squeezed (by decide), if_neg (by simpa using hmark), htabs]
      omega

/-- What is laid out is nothing, or has the end of a line at its end. -/
theorem laid_ends (n : Nat) (ls : List (List Char)) :
    laid n ls = [] ∨ ∃ cs, laid n ls = cs ++ ['\n'] := by
  induction ls generalizing n with
  | nil => exact .inl rfl
  | cons l ls ih =>
    by_cases hmark : IsMark l
    · rw [laid_mark hmark]
      exact ih _
    · rw [laid_unmarked hmark]
      right
      rcases ih n with hrest | ⟨cs, hrest⟩
      · exact ⟨_, by rw [hrest]⟩
      · refine ⟨List.replicate n '\t' ++ squeezed l ++ '\n' :: cs, ?_⟩
        rw [hrest, List.append_assoc, List.append_assoc, List.append_assoc, List.cons_append]

/-! ### Resolved texts -/

theorem toList_resolved (t : String) :
    (resolved t).toList = Text.trim (laid 0 (Text.lines t.toList)) :=
  String.toList_ofList

/-- A resolved text has no blanks at its ends, and no two spaces side by side. -/
theorem isTrimmed_resolved (t : String) : Text.IsTrimmed (resolved t).toList := by
  rw [toList_resolved]
  exact Text.isTrimmed_trim _

theorem squeezed_resolved (t : String) : squeezed (resolved t).toList = (resolved t).toList := by
  rw [toList_resolved]
  exact squeezed_of_isInfix (squeezed_laid 0 _) (Text.trim_isInfix _)

/-- A text without marks and without carriage returns at ends of lines stays as it is. -/
theorem trim_laid_of_unmarked {cs : List Char} (htrimmed : Text.IsTrimmed cs)
    (hsqueezed : squeezed cs = cs) (hmarks : ∀ l ∈ Text.lines cs, ¬IsMark l)
    (hreturns : ¬['\r', '\n'] <:+: cs) : Text.trim (laid 0 (Text.lines cs)) = cs := by
  by_cases hne : cs = []
  · rw [hne]
    rfl
  · have hlast := htrimmed.last_ne (c := '\n') (by decide)
    have hkept : Text.withoutReturns cs = cs := Text.withoutBefore_eq_self_iff.mpr hreturns
    rw [laid_of_unmarked hmarks, Text.unlines_lines hne hlast, hkept, squeezed_append_newline,
      hsqueezed]
    exact (Text.trim_concat (by decide) cs).trans htrimmed.trim_eq

/-- A text that stays as it is has no marks: each mark would take an end of a line away. -/
theorem unmarked_of_trim_laid {cs : List Char} (htrimmed : Text.IsTrimmed cs)
    (h : Text.trim (laid 0 (Text.lines cs)) = cs) : ∀ l ∈ Text.lines cs, ¬IsMark l := by
  by_cases hne : cs = []
  · subst hne
    exact List.forall_mem_nil _
  have hlast := htrimmed.last_ne (c := '\n') (by decide)
  have hcount := count_newline_laid 0 (Text.lines cs)
  rw [Text.unlines_lines hne hlast, Text.withoutReturns, List.count_append,
    Text.count_withoutBefore (by decide), List.count_singleton_self] at hcount
  rcases laid_ends 0 (Text.lines cs) with hlaid | ⟨ds, hlaid⟩
  · rw [hlaid] at h
    exact absurd h.symm hne
  · rw [hlaid, Text.trim_concat (by decide)] at h
    have hle : cs.count '\n' ≤ ds.count '\n' := by
      conv_lhs => rw [← h]
      exact (Text.trim_isInfix ds).sublist.count_le '\n'
    rw [hlaid, List.count_append, List.count_singleton_self] at hcount
    have hnone : (Text.lines cs).countP (decide <| IsMark ·) = 0 := by omega
    intro l hl hmark
    exact List.countP_eq_zero.mp hnone l hl (decide_eq_true hmark)

/-- Nor has it carriage returns at ends of lines, which would be lost. -/
theorem no_returns_of_trim_laid {cs : List Char} (htrimmed : Text.IsTrimmed cs)
    (h : Text.trim (laid 0 (Text.lines cs)) = cs) : ¬['\r', '\n'] <:+: cs := by
  by_cases hne : cs = []
  · subst hne
    simp
  have hlast := htrimmed.last_ne (c := '\n') (by decide)
  rw [laid_of_unmarked (unmarked_of_trim_laid htrimmed h), Text.unlines_lines hne hlast,
    squeezed_append_newline] at h
  have hkept : Text.trim (squeezed (Text.withoutReturns cs)) = cs :=
    (Text.trim_concat (by decide) _).symm.trans h
  have hle : cs.length ≤ (Text.withoutReturns cs).length :=
    calc cs.length
      _ ≤ (squeezed (Text.withoutReturns cs)).length := by
        conv_lhs => rw [← hkept]
        exact (Text.trim_isInfix _).length_le
      _ ≤ (Text.withoutReturns cs).length := (squeezed_sublist _).length_le
  exact Text.withoutBefore_eq_self_iff.mp
    ((Text.withoutBefore_sublist cs).eq_of_length_le hle)

/-- Resolving a second time changes nothing exactly where the first time left no mark and no carriage
return at the end of a line. -/
theorem resolved_resolved_iff (t : String) : resolved (resolved t) = resolved t ↔
    (∀ l ∈ Text.lines (resolved t).toList, ¬IsMark l) ∧ ¬['\r', '\n'] <:+: (resolved t).toList := by
  rw [← String.toList_inj, toList_resolved (resolved t)]
  have htrimmed := isTrimmed_resolved t
  constructor
  · exact fun h => ⟨unmarked_of_trim_laid htrimmed h, no_returns_of_trim_laid htrimmed h⟩
  · exact fun h => trim_laid_of_unmarked htrimmed (squeezed_resolved t) h.1 h.2

end Layout

open Layout

namespace Rendition

/-- No line of resolved code is a mark: a line inside a block has tabs before it, and one outside of
all blocks was no mark before. -/
theorem unmarked_resolved {source code : String} (h : (ofTokens (tokens source)).code = some code) :
    ∀ l ∈ Text.lines (resolved code).toList, ¬IsMark l := by
  obtain ⟨-, hwrites, -⟩ := nested_ofTokens h
  intro row hrow hmark
  obtain ⟨k, l, -, hl, rfl⟩ := hwrites.exists_line hrow
  cases k with
  | zero => exact hl (isMark_squeezed hmark)
  | succ k => exact not_isMark_of_mem (c := '\t') (by simp [List.replicate_succ]) (by decide) hmark

/-- No line of it ends in a carriage return, as there are none. -/
theorem no_returns_resolved {source code : String}
    (h : (ofTokens (tokens source)).code = some code) :
    ¬['\r', '\n'] <:+: (resolved code).toList := by
  obtain ⟨-, -, hprintable⟩ := nested_ofTokens h
  intro hends
  have hreturn : '\r' ∈ (resolved code).toList := hends.subset (List.mem_cons_self ..)
  rw [toList_resolved] at hreturn
  rcases mem_laid ((Text.trim_isInfix _).subset hreturn) with htab | hnewline | ⟨l, hl, hmem⟩
  · exact absurd htab (by decide)
  · exact absurd hnewline (by decide)
  · exact absurd (hprintable l hl _ hmem) (by decide)

/-- Resolving marks twice is resolving them once exactly where the first time left no mark and no
carriage return at the end of a line. It leaves neither in the code that words become, and so the code
for a text stays as it is when its marks are resolved once more. -/
theorem resolved_stable :
    (∀ t : String, resolved (resolved t) = resolved t ↔
      (∀ l ∈ Text.lines (resolved t).toList, ¬IsMark l) ∧ ¬['\r', '\n'] <:+: (resolved t).toList) ∧
    (∀ source code : String, (ofTokens (tokens source)).code = some code →
      (∀ l ∈ Text.lines (resolved code).toList, ¬IsMark l) ∧
        ¬['\r', '\n'] <:+: (resolved code).toList) ∧
    ∀ source code : String, (ofText source).code = some code → resolved code = code := by
  refine ⟨resolved_resolved_iff, ?_, ?_⟩
  · intro source code h
    exact ⟨unmarked_resolved h, no_returns_resolved h⟩
  · intro source code h
    obtain ⟨marked, hmarked, rfl⟩ := Option.map_eq_some_iff.mp h
    exact (resolved_resolved_iff marked).mpr
      ⟨unmarked_resolved hmarked, no_returns_resolved hmarked⟩

/-- The statement in the loop cannot be read; the code stays as it is all the same. -/
theorem resolved_stable_skipped :
    let code := "while True:\n\tpass\n\tif n:\n\t\tbreak"
    (ofText "repeat x <- * until n").code = some code ∧ resolved code = code := by
  intro code
  have hcode : (ofText "repeat x <- * until n").code = some code := by decide +kernel
  exact ⟨hcode, resolved_stable.2.2 _ code hcode⟩

-- A blank keeps a line from being a mark, until it is trimmed away.
example : resolved " INDENT" = "INDENT" ∧ resolved "INDENT" = "" := by
  decide +kernel

-- Of two carriage returns the last one is a part of the end of the line, and then the first one is.
example : resolved "a\r\r\nb" = "a\r\nb" ∧ resolved "a\r\nb" = "a\nb" := by
  decide +kernel

end Rendition

end Growth.Pseudo
