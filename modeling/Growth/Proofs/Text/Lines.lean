import Growth.Text.Blank
import Mathlib.Data.List.Chain
import Mathlib.Data.List.DropRight
import Mathlib.Data.List.Infix

/-! Lines and trimmed texts. The lines of a text, put together again, are the text without the carriage
returns before its line feeds. A trimmed text is what trimming leaves alone, also behind a line feed
more. -/

namespace Growth.Text

/-! ### Lines -/

/-- Lines with a line feed behind each. -/
def unlines (ls : List (List Char)) : List Char :=
  ls.flatMap (· ++ ['\n'])

theorem unlines_cons (l : List Char) (ls : List (List Char)) :
    unlines (l :: ls) = l ++ '\n' :: unlines ls := by
  rw [unlines, List.flatMap_cons, List.append_assoc, unlines, List.singleton_append]

theorem unlines_append (ls ls' : List (List Char)) :
    unlines (ls ++ ls') = unlines ls ++ unlines ls' :=
  List.flatMap_append

/-- A character that ends no line, alone or with the one behind it. -/
def Continues (c : Char) (cs : List Char) : Prop :=
  c ≠ '\n' ∧ ¬(c = '\r' ∧ cs.head? = some '\n')

section Equations

variable {c : Char} {cs : List Char}

theorem lines_newline (cs : List Char) : lines ('\n' :: cs) = [] :: lines cs := rfl

theorem lines_return (cs : List Char) : lines ('\r' :: '\n' :: cs) = [] :: lines cs := rfl

theorem lines_continues (h : Continues c cs) : lines (c :: cs) =
    match lines cs with
    | [] => [[c]]
    | l :: ls => (c :: l) :: ls := by
  rw [lines.eq_def]
  split
  · rename_i heq
    cases heq
  · rename_i heq
    cases heq
    exact absurd rfl h.1
  · rename_i heq
    cases heq
    exact absurd ⟨rfl, rfl⟩ h.2
  · rename_i heq
    cases heq
    rfl

/-- What is to be shown of a text is shown by the way its lines are found. -/
theorem lines_induction {P : List Char → Prop} (nil : P [])
    (newline : ∀ cs, P cs → P ('\n' :: cs)) (carriage : ∀ cs, P cs → P ('\r' :: '\n' :: cs))
    (other : ∀ c cs, Continues c cs → P cs → P (c :: cs)) (cs : List Char) : P cs := by
  have hcontinues (c : Char) (cs : List Char) (hn : c = '\n' → False)
      (hr : ∀ rest, c = '\r' → cs = '\n' :: rest → False) : Continues c cs := by
    refine ⟨hn, fun ⟨hc, hhead⟩ => ?_⟩
    obtain ⟨rest, rfl⟩ := List.head?_eq_some_iff.mp hhead
    exact hr rest hc rfl
  induction cs using lines.induct with
  | case1 => exact nil
  | case2 cs ih => exact newline cs ih
  | case3 cs ih => exact carriage cs ih
  | case4 c cs hn hr _ ih => exact other c cs (hcontinues c cs hn hr) ih
  | case5 c cs hn hr _ _ _ ih => exact other c cs (hcontinues c cs hn hr) ih

theorem lines_ne_nil (h : cs ≠ []) : lines cs ≠ [] := by
  induction cs using lines_induction with
  | nil => exact absurd rfl h
  | newline cs _ => rw [lines_newline]; exact List.cons_ne_nil _ _
  | carriage cs _ => rw [lines_return]; exact List.cons_ne_nil _ _
  | other c cs hc _ =>
    rw [lines_continues hc]
    split
    · exact List.cons_ne_nil _ _
    · exact List.cons_ne_nil _ _

theorem unlines_lines_continues (h : Continues c cs) (hne : cs ≠ []) :
    unlines (lines (c :: cs)) = c :: unlines (lines cs) := by
  rw [lines_continues h]
  cases hlines : lines cs with
  | nil => exact absurd hlines (lines_ne_nil hne)
  | cons l ls => rw [unlines_cons, unlines_cons, List.cons_append]

end Equations

/-- A text without ends of lines is a line. -/
theorem lines_append {l : List Char} (hn : '\n' ∉ l) (hr : '\r' ∉ l) (rest : List Char) :
    lines (l ++ '\n' :: rest) = l :: lines rest := by
  induction l with
  | nil => exact lines_newline rest
  | cons c l ih =>
    rw [List.mem_cons, not_or] at hn hr
    rw [List.cons_append, lines_continues ⟨Ne.symm hn.1, fun h => hr.1 h.1.symm⟩, ih hn.2 hr.2]

theorem lines_unlines {ls : List (List Char)} (h : ∀ l ∈ ls, '\n' ∉ l ∧ '\r' ∉ l) :
    lines (unlines ls) = ls := by
  induction ls with
  | nil => rfl
  | cons l ls ih =>
    obtain ⟨⟨hn, hr⟩, hls⟩ := List.forall_mem_cons.mp h
    rw [unlines_cons, lines_append hn hr, ih hls]

/-- The end of the last line may be missing. -/
theorem lines_concat {cs : List Char} (hne : cs ≠ []) (hn : cs.getLast? ≠ some '\n')
    (hr : cs.getLast? ≠ some '\r') : lines (cs ++ ['\n']) = lines cs := by
  induction cs using lines_induction with
  | nil => exact absurd rfl hne
  | newline cs ih =>
    have hcs : cs ≠ [] := by rintro rfl; exact hn rfl
    obtain ⟨d, cs, rfl⟩ := List.exists_cons_of_ne_nil hcs
    rw [List.getLast?_cons_cons] at hn hr
    rw [List.cons_append, lines_newline, lines_newline, ih hcs hn hr]
  | carriage cs ih =>
    have hcs : cs ≠ [] := by rintro rfl; exact hn rfl
    obtain ⟨d, cs, rfl⟩ := List.exists_cons_of_ne_nil hcs
    rw [List.getLast?_cons_cons, List.getLast?_cons_cons] at hn hr
    rw [List.cons_append, List.cons_append, lines_return, lines_return, ih hcs hn hr]
  | other c cs hc ih =>
    by_cases hcs : cs = []
    · subst hcs
      have hc' : Continues c ['\n'] := ⟨hc.1, fun h => hr (congrArg some h.1)⟩
      rw [List.cons_append, List.nil_append, lines_continues hc', lines_continues hc, lines_newline]
      rfl
    · obtain ⟨d, cs, rfl⟩ := List.exists_cons_of_ne_nil hcs
      rw [List.getLast?_cons_cons] at hn hr
      have hc' : Continues c (d :: cs ++ ['\n']) := ⟨hc.1, hc.2⟩
      rw [List.cons_append, lines_continues hc', lines_continues hc, ih hcs hn hr]

/-! ### Characters that stand before others -/

/-- The text without each `c` that stands before a `d`. -/
def withoutBefore (c d : Char) : List Char → List Char
  | [] => []
  | e :: cs =>
    if e = c ∧ cs.head? = some d then withoutBefore c d cs else e :: withoutBefore c d cs

section WithoutBefore

variable {c d : Char}

theorem withoutBefore_cons (e : Char) (cs : List Char) : withoutBefore c d (e :: cs) =
    if e = c ∧ cs.head? = some d then withoutBefore c d cs else e :: withoutBefore c d cs := rfl

theorem withoutBefore_sublist (cs : List Char) : (withoutBefore c d cs).Sublist cs := by
  induction cs with
  | nil => exact .slnil
  | cons e cs ih =>
    rw [withoutBefore_cons]
    split
    · exact ih.cons e
    · exact ih.cons_cons e

theorem count_withoutBefore {e : Char} (he : e ≠ c) (cs : List Char) :
    (withoutBefore c d cs).count e = cs.count e := by
  induction cs with
  | nil => rfl
  | cons e' cs ih =>
    rw [withoutBefore_cons]
    split
    · rename_i h
      rw [ih, h.1, List.count_cons_of_ne he.symm]
    · rw [List.count_cons, List.count_cons, ih]

/-- Nothing is left out of a text exactly where no `c` stands before a `d`. -/
theorem withoutBefore_eq_self_iff {cs : List Char} :
    withoutBefore c d cs = cs ↔ ¬[c, d] <:+: cs := by
  induction cs with
  | nil => exact iff_of_true rfl (by simp)
  | cons e cs ih =>
    have hprefix : [c, d] <+: e :: cs ↔ e = c ∧ cs.head? = some d := by
      cases cs with
      | nil => simp
      | cons e' cs => simp [List.cons_prefix_cons, eq_comm]
    rw [withoutBefore_cons, List.infix_cons_iff, hprefix, not_or, ← ih]
    split
    · rename_i h
      have hlength := (withoutBefore_sublist (c := c) (d := d) cs).length_le
      refine iff_of_false (fun heq => ?_) fun hnot => hnot.1 h
      rw [heq, List.length_cons] at hlength
      omega
    · rename_i h
      rw [List.cons_inj_right]
      exact ⟨fun heq => ⟨h, heq⟩, And.right⟩

end WithoutBefore

/-- The text without the carriage returns that stand before line feeds. -/
def withoutReturns (cs : List Char) : List Char :=
  withoutBefore '\r' '\n' cs

theorem withoutReturns_cons (c : Char) (cs : List Char) : withoutReturns (c :: cs) =
    if c = '\r' ∧ cs.head? = some '\n' then withoutReturns cs else c :: withoutReturns cs := rfl

theorem withoutReturns_continues {c : Char} {cs : List Char} (h : Continues c cs) :
    withoutReturns (c :: cs) = c :: withoutReturns cs := by
  rw [withoutReturns_cons, if_neg h.2]

theorem withoutReturns_newline (cs : List Char) :
    withoutReturns ('\n' :: cs) = '\n' :: withoutReturns cs := by
  rw [withoutReturns_cons, if_neg fun h => absurd h.1 (by decide)]

theorem withoutReturns_return (cs : List Char) :
    withoutReturns ('\r' :: '\n' :: cs) = '\n' :: withoutReturns cs := by
  rw [withoutReturns_cons, if_pos ⟨rfl, rfl⟩, withoutReturns_newline]

/-- The lines of a text, put together again, are the text without its carriage returns before line
feeds. -/
theorem unlines_lines {cs : List Char} (hne : cs ≠ []) (hlast : cs.getLast? ≠ some '\n') :
    unlines (lines cs) = withoutReturns cs ++ ['\n'] := by
  induction cs using lines_induction with
  | nil => exact absurd rfl hne
  | newline cs ih =>
    have hcs : cs ≠ [] := by rintro rfl; exact hlast rfl
    obtain ⟨d, cs, rfl⟩ := List.exists_cons_of_ne_nil hcs
    rw [lines_newline, unlines_cons, ih hcs (by simpa using hlast), withoutReturns_newline,
      List.nil_append, List.cons_append]
  | carriage cs ih =>
    have hcs : cs ≠ [] := by rintro rfl; exact hlast rfl
    obtain ⟨d, cs, rfl⟩ := List.exists_cons_of_ne_nil hcs
    rw [lines_return, unlines_cons, ih hcs (by simpa using hlast), withoutReturns_return,
      List.nil_append, List.cons_append]
  | other c cs hc ih =>
    rw [withoutReturns_continues hc]
    by_cases hcs : cs = []
    · subst hcs
      rw [lines_continues hc]
      rfl
    · obtain ⟨d, cs, rfl⟩ := List.exists_cons_of_ne_nil hcs
      rw [unlines_lines_continues hc hcs, ih hcs (by simpa using hlast), List.cons_append]

/-! ### Trimmed texts -/

/-- The text has no blanks at its ends. -/
structure IsTrimmed (cs : List Char) : Prop where
  head : ∀ c ∈ cs.head?, isBlank c = false
  last : ∀ c ∈ cs.getLast?, isBlank c = false

theorem trimEnd_eq (cs : List Char) : trimEnd cs = cs.rdropWhile isBlank := rfl

theorem trim_isInfix (cs : List Char) : trim cs <:+: cs := by
  rw [trim, trimEnd_eq]
  exact (List.rdropWhile_prefix _ _).isInfix.trans (List.dropWhile_suffix _).isInfix

/-- A blank more at the end is trimmed away too. -/
theorem trim_concat {c : Char} (hc : isBlank c = true) (cs : List Char) :
    trim (cs ++ [c]) = trim cs := by
  rw [trim, trim, trimEnd_eq, trimEnd_eq]
  by_cases hall : cs.dropWhile isBlank = []
  · have hblank : ∀ d ∈ cs ++ [c], isBlank d = true :=
      List.forall_mem_append.mpr
        ⟨List.dropWhile_eq_nil_iff.mp hall, List.forall_mem_singleton.mpr hc⟩
    rw [hall, List.dropWhile_eq_nil_iff.mpr hblank]
  · rw [List.dropWhile_append, if_neg (by simpa using hall), List.rdropWhile_concat_pos _ _ _ hc]

theorem isTrimmed_trim (cs : List Char) : IsTrimmed (trim cs) := by
  rw [trim, trimEnd_eq]
  constructor
  · intro c hc
    obtain ⟨rest, hrest⟩ := List.head?_eq_some_iff.mp hc
    -- the first character that is left is the first one that was no blank
    have hhead : (cs.dropWhile isBlank).head? = some c := by
      obtain ⟨more, hmore⟩ := List.rdropWhile_prefix isBlank (cs.dropWhile isBlank)
      rw [← hmore, hrest]
      rfl
    have hnot := List.head?_dropWhile_not isBlank cs
    rw [hhead] at hnot
    exact hnot
  · intro c hc
    have hne := List.ne_nil_of_mem (List.mem_of_getLast? hc)
    rw [List.getLast?_eq_some_getLast hne] at hc
    have hnot := List.rdropWhile_last_not isBlank _ hne
    rw [Option.mem_some_iff.mp hc] at hnot
    exact Bool.eq_false_iff.mpr hnot

namespace IsTrimmed

variable {cs : List Char}

theorem trim_eq (h : IsTrimmed cs) : trim cs = cs := by
  have hhead : cs.dropWhile isBlank = cs := by
    cases cs with
    | nil => rfl
    | cons c cs => rw [List.dropWhile_cons_of_neg (Bool.eq_false_iff.mp (h.head c rfl))]
  rw [trim, hhead, trimEnd_eq]
  by_cases hne : cs = []
  · rw [hne, List.rdropWhile_nil]
  · refine List.rdropWhile_eq_self_iff.mpr fun hne => ?_
    exact Bool.eq_false_iff.mp (h.last _ (List.getLast?_eq_some_getLast hne))

theorem last_ne (h : IsTrimmed cs) {c : Char} (hc : isBlank c = true) : cs.getLast? ≠ some c :=
  fun hlast => nomatch hc.symm.trans (h.last c hlast)

end IsTrimmed

end Growth.Text
