import Growth.Proofs.Code.Layout
import Growth.Proofs.Rendition.Condition

/-! Lines of code between the marks of blocks, and the text that they are laid out as. -/

namespace Growth.Pseudo

open Code (indentation)

/-- With its blanks squeezed a line of code is the tidy text `content`, which is not a mark. -/
structure SettlesLine (text : String) (content : List Char) : Prop where
  tidy : Tidy content
  squeezed : Layout.squeezed text.toList = content
  unmarked : ∃ c ∈ content, c ∉ "UNINDENT".toList

theorem SettlesLine.of_tidy {text : String} (h : Tidy text.toList)
    (hmark : ∃ c ∈ text.toList, c ∉ "UNINDENT".toList) : SettlesLine text text.toList :=
  ⟨h, h.squeezed, hmark⟩

theorem SettlesLine.of_word {text : String}
    (h : (!text.toList.isEmpty && text.toList.all fun c => isPrintable c && c != ' ') = true)
    (hmark : (text.toList.any fun c => !"UNINDENT".toList.contains c) = true) :
    SettlesLine text text.toList :=
  .of_tidy (.of_word h) (by simpa using hmark)

theorem SettlesLine.ne_mark {text : String} {content : List Char} (h : SettlesLine text content) :
    text.toList ≠ "INDENT".toList ∧ text.toList ≠ "UNINDENT".toList := by
  obtain ⟨c, hc, hmark⟩ := h.unmarked
  rw [← h.squeezed, Layout.mem_squeezed] at hc
  constructor
  · intro heq
    rw [heq] at hc
    have hsub : "INDENT".toList <:+ "UNINDENT".toList := ⟨"UN".toList, by decide⟩
    exact hmark (hsub.subset hc)
  · intro heq
    rw [heq] at hc
    exact hmark hc

/-- Inside `depth` blocks the lines are laid out as `cs`, whatever lines follow. -/
structure Lays (depth : Nat) (ls : List Line) (cs : List Char) : Prop where
  laid : ∀ rest, Layout.laid depth (ls.map Line.chars ++ rest) = cs ++ Layout.laid depth rest
  printable : ∀ l ∈ ls, ∀ c ∈ l.chars, isPrintable c = true
  begins : ∃ c more, cs = indentation ['\t'] depth ++ c :: more ∧ Text.isBlank c = false
  ends : ∃ before c, cs = before ++ [c, '\n'] ∧ Text.isBlank c = false

/-- The lines of a body: without lines it does nothing. -/
def Line.body (ls : List Line) : List Line :=
  if ls.isEmpty then [.code "pass"] else ls

theorem Line.block_eq (ls : List Line) :
    Line.block ls = .opening :: Line.body ls ++ [Line.closing] := rfl

theorem Line.body_of_ne_nil {ls : List Line} (h : ls ≠ []) : Line.body ls = ls :=
  if_neg (by simpa using h)

theorem indentation_tab (depth : Nat) : indentation ['\t'] depth = List.replicate depth '\t' := by
  induction depth with
  | zero => rfl
  | succ depth ih =>
    rw [indentation, List.replicate_succ, List.flatten_cons, ← indentation, ih,
      List.replicate_succ, List.singleton_append]

namespace Layout

theorem laid_line {line : List Char} (h : line ≠ "INDENT".toList) (h' : line ≠ "UNINDENT".toList)
    (depth : Nat) (rest : List (List Char)) :
    laid depth (line :: rest) =
      List.replicate depth '\t' ++ squeezed line ++ '\n' :: laid depth rest := by
  rw [laid, if_neg h, if_neg h']

theorem laid_opening (depth : Nat) (rest : List (List Char)) :
    laid depth (Line.opening.chars :: rest) = laid (depth + 1) rest :=
  if_pos rfl

theorem laid_closing (depth : Nat) (rest : List (List Char)) :
    laid (depth + 1) (Line.closing.chars :: rest) = laid depth rest := by
  have hmarks : Line.closing.chars ≠ "INDENT".toList := by decide
  rw [laid, if_neg hmarks]
  exact if_pos rfl

end Layout

namespace Lays

variable {depth : Nat} {ls ls' : List Line} {cs cs' content : List Char} {text : String}

theorem ne_nil (h : Lays depth ls cs) : cs ≠ [] := by
  obtain ⟨before, c, rfl, -⟩ := h.ends
  simp

theorem lines_ne_nil (h : Lays depth ls cs) : ls ≠ [] := by
  rintro rfl
  have hlaid := h.laid []
  simp only [List.map_nil, Layout.laid, List.append_nil] at hlaid
  exact h.ne_nil hlaid.symm

theorem append (h : Lays depth ls cs) (h' : Lays depth ls' cs') :
    Lays depth (ls ++ ls') (cs ++ cs') := by
  obtain ⟨c, more, rfl, hc⟩ := h.begins
  obtain ⟨before, d, rfl, hd⟩ := h'.ends
  refine ⟨fun rest => ?_, List.forall_mem_append.mpr ⟨h.printable, h'.printable⟩, ?_, ?_⟩
  · rw [List.map_append, List.append_assoc, h.laid, h'.laid, ← List.append_assoc]
  · exact ⟨c, more ++ (before ++ [d, '\n']), by simp, hc⟩
  · exact ⟨_, d, (List.append_assoc ..).symm, hd⟩

/-- One line of code. -/
theorem line (h : SettlesLine text content) (depth : Nat) :
    Lays depth [.code text] (indentation ['\t'] depth ++ content ++ ['\n']) := by
  obtain ⟨hopening, hclosing⟩ := h.ne_mark
  have hfirst := h.tidy.head
  have hlast := h.tidy.last
  rw [List.head?_eq_some_head h.tidy.nonempty] at hfirst
  rw [List.getLast?_eq_some_getLast h.tidy.nonempty] at hlast
  have hprintable := h.tidy.printable
  refine ⟨fun rest => ?_, ?_, ?_, ?_⟩
  · rw [indentation_tab]
    have hline := Layout.laid_line hopening hclosing depth rest
    rw [h.squeezed] at hline
    rw [List.append_assoc]
    exact hline
  · intro l hl c hc
    obtain rfl := List.mem_singleton.mp hl
    refine hprintable c ?_
    rw [← h.squeezed]
    exact Layout.mem_squeezed.mpr hc
  · refine ⟨content.head h.tidy.nonempty, content.tail ++ ['\n'], ?_, ?_⟩
    · rw [← List.cons_append, List.cons_head_tail, List.append_assoc]
    · exact not_isBlank_of_isPrintable (hprintable _ (List.head_mem _)) fun heq =>
        hfirst (by rw [heq])
  · refine ⟨indentation ['\t'] depth ++ content.dropLast, content.getLast h.tidy.nonempty, ?_, ?_⟩
    · conv_lhs => rw [← List.dropLast_concat_getLast h.tidy.nonempty]
      simp
    · exact not_isBlank_of_isPrintable (hprintable _ (List.getLast_mem _)) fun heq =>
        hlast (by rw [heq])

theorem laid_block (hb : Lays (depth + 1) (Line.body ls) cs) (rest : List (List Char)) :
    Layout.laid depth ((Line.block ls).map Line.chars ++ rest) = cs ++ Layout.laid depth rest := by
  have hbody := hb.laid (Line.closing.chars :: rest)
  rw [Layout.laid_closing] at hbody
  rw [Line.block_eq, List.map_append, List.map_cons, List.cons_append, List.cons_append,
    Layout.laid_opening, List.append_assoc]
  exact hbody

/-- A line of code with a block under it. -/
theorem block (h : SettlesLine text content) (hb : Lays (depth + 1) (Line.body ls) cs) :
    Lays depth (.code text :: Line.block ls)
      (indentation ['\t'] depth ++ content ++ '\n' :: cs) := by
  obtain ⟨hlaid, hprintable, ⟨c, more, hcs, hc⟩, -⟩ := line h depth
  obtain ⟨before, d, hends, hd⟩ := hb.ends
  refine ⟨fun rest => ?_, ?_, ?_, ?_⟩
  · have hline := hlaid ((Line.block ls).map Line.chars ++ rest)
    rw [laid_block hb] at hline
    simpa using hline
  · rw [Line.block_eq]
    refine List.forall_mem_cons.mpr ⟨hprintable _ (.head _), ?_⟩
    refine List.forall_mem_append.mpr ⟨List.forall_mem_cons.mpr
      ⟨(Tidy.of_word (by decide)).printable, hb.printable⟩, ?_⟩
    exact List.forall_mem_singleton.mpr (Tidy.of_word (by decide)).printable
  · refine ⟨c, more ++ cs, ?_, hc⟩
    have hmore := congrArg (· ++ cs) hcs
    simpa using hmore
  · refine ⟨indentation ['\t'] depth ++ content ++ '\n' :: before, d, ?_, hd⟩
    rw [hends]
    simp

end Lays

/-! ### The text of a program -/

/-- The text of a program is its lines as they are laid out, without the end of the last one. -/
theorem Lays.resolved {ls : List Line} {cs : List Char} (h : Lays 0 ls cs) :
    (Layout.resolved (String.join (ls.map Line.text))).toList ++ ['\n'] = cs := by
  have hlaid := h.laid []
  rw [List.append_nil, Layout.laid, List.append_nil] at hlaid
  obtain ⟨c, more, hbegins, hc⟩ := h.begins
  obtain ⟨before, d, hends, hd⟩ := h.ends
  have hfirst : cs.dropWhile Text.isBlank = cs := by
    rw [hbegins]
    simp [indentation, hc]
  have hlast : Text.trimEnd cs = before ++ [d] := by
    rw [hends, Text.trimEnd]
    have hnewline : Text.isBlank '\n' = true := by decide
    simp [hnewline, hd]
  rw [Layout.resolved, lines_join h.printable, hlaid, Text.trim, hfirst, hlast,
    String.toList_ofList, hends]
  simp

end Growth.Pseudo
