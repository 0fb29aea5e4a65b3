import Growth.Proofs.Rendition.Spelling
import Growth.Proofs.Text.Lines
import Growth.Pseudo.Layout
import Growth.Pseudo.Line

/-! Texts that stay as they are when blanks are squeezed, lines that are laid out, and the text of a
whole program between its blanks. -/

namespace Growth.Pseudo

open Layout

/-! ### Squeezed texts -/

namespace Layout

theorem squeezed_cons (c : Char) (cs : List Char) :
    squeezed (c :: cs) =
      if c = ' ' ∧ cs.head? = some ' ' then squeezed cs else c :: squeezed cs := by
  simp [squeezed]

theorem squeezed_of_ne {c : Char} (h : c ≠ ' ') (cs : List Char) :
    squeezed (c :: cs) = c :: squeezed cs := by
  rw [squeezed_cons, if_neg fun hc => h hc.1]

theorem head?_squeezed (cs : List Char) : (squeezed cs).head? = cs.head? := by
  induction cs with
  | nil => rfl
  | cons c cs ih =>
    rw [squeezed_cons]
    split
    · rename_i h
      rw [ih, h.2, h.1, List.head?_cons]
    · rfl

theorem mem_squeezed {c : Char} {cs : List Char} : c ∈ squeezed cs ↔ c ∈ cs := by
  induction cs with
  | nil => rfl
  | cons d cs ih =>
    rw [squeezed_cons]
    split
    · rename_i h
      have hmem : ' ' ∈ cs := List.mem_of_mem_head? h.2
      rw [ih, List.mem_cons, h.1]
      constructor
      · exact .inr
      · rintro (rfl | hc)
        · exact hmem
        · exact hc
    · rw [List.mem_cons, List.mem_cons, ih]

/-- A text that does not end in a blank is squeezed alone. -/
theorem squeezed_append {cs : List Char} (h : cs.getLast? ≠ some ' ') (rest : List Char) :
    squeezed (cs ++ rest) = squeezed cs ++ squeezed rest := by
  induction cs with
  | nil => rfl
  | cons c cs ih =>
    cases cs with
    | nil =>
      have hc : c ≠ ' ' := by simpa using h
      rw [List.singleton_append, squeezed_of_ne hc, squeezed_of_ne hc]
      rfl
    | cons d cs =>
      have hmore := ih (by simpa using h)
      rw [List.cons_append, squeezed_cons c (d :: cs), squeezed_cons c, hmore]
      rw [List.cons_append, List.head?_cons, List.head?_cons]
      by_cases hblanks : c = ' ' ∧ some d = some ' '
      · rw [if_pos hblanks, if_pos hblanks]
      · rw [if_neg hblanks, if_neg hblanks, List.cons_append]

end Layout

/-! ### Tidy texts -/

/-- The characters of a line of code. -/
def isPrintable (c : Char) : Bool :=
  32 ≤ c.toNat && c.toNat < 127

theorem not_isBlank_of_isPrintable {c : Char} (h : isPrintable c = true) (hc : c ≠ ' ') :
    Text.isBlank c = false := by
  have hne : c.toNat ≠ 0x20 := fun heq => hc (Char.toNat_inj.mp heq)
  simp only [isPrintable, Bool.and_eq_true, decide_eq_true_eq] at h
  simp only [Text.isBlank, Bool.or_eq_false_iff, Bool.and_eq_false_iff, decide_eq_false_iff_not,
    beq_eq_false_iff_ne]
  omega

theorem isPrintable_ne {c : Char} (h : isPrintable c = true) : c ≠ '\n' ∧ c ≠ '\r' := by
  constructor
  all_goals
    rintro rfl
    exact absurd h (by decide)

/-- A text without two blanks side by side and without one at its ends. -/
structure Tidy (cs : List Char) : Prop where
  nonempty : cs ≠ []
  printable : ∀ c ∈ cs, isPrintable c = true
  squeezed : Layout.squeezed cs = cs
  head : cs.head? ≠ some ' '
  last : cs.getLast? ≠ some ' '

namespace Tidy

variable {cs cs' : List Char}

theorem squeezed_append (h : Tidy cs) (rest : List Char) :
    Layout.squeezed (cs ++ rest) = cs ++ Layout.squeezed rest := by
  rw [Layout.squeezed_append h.last, h.squeezed]

/-- Two tidy texts with one blank between them or none. -/
theorem join (h : Tidy cs) (h' : Tidy cs') {blank : List Char} (hblank : blank ∈ [[], [' ']]) :
    Tidy (cs ++ (blank ++ cs')) := by
  have hblank : blank = [] ∨ blank = [' '] := by simpa using hblank
  have hsqueezed : Layout.squeezed (blank ++ cs') = blank ++ cs' := by
    rcases hblank with rfl | rfl
    · exact h'.squeezed
    · rw [List.singleton_append, squeezed_cons, if_neg fun hc => h'.head hc.2, h'.squeezed]
  refine ⟨by simp [h.nonempty], ?_, by rw [h.squeezed_append, hsqueezed], ?_, ?_⟩
  · refine List.forall_mem_append.mpr ⟨h.printable, List.forall_mem_append.mpr ⟨?_, h'.printable⟩⟩
    rcases hblank with rfl | rfl
    · nofun
    · exact List.forall_mem_singleton.mpr (by decide)
  · have hhead := h.head
    rw [List.head?_eq_some_head h.nonempty] at hhead
    rwa [List.head?_append, List.head?_eq_some_head h.nonempty, Option.some_or]
  · have hlast := h'.last
    rw [List.getLast?_eq_some_getLast h'.nonempty] at hlast
    rwa [← List.append_assoc, List.getLast?_append, List.getLast?_eq_some_getLast h'.nonempty,
      Option.some_or]

theorem append (h : Tidy cs) (h' : Tidy cs') : Tidy (cs ++ cs') :=
  h.join h' (List.mem_cons_self ..)

theorem spaced (h : Tidy cs) (h' : Tidy cs') : Tidy (cs ++ ' ' :: cs') :=
  h.join h' (List.mem_cons_of_mem _ (List.mem_cons_self ..))

/-- Trimming leaves a tidy text, without the blank before it. -/
theorem trimmed (h : Tidy cs) {blank : List Char} (hblank : blank ∈ [[], [' ']]) :
    Text.trim (blank ++ cs) = cs := by
  have hhead := h.head
  have hlast := h.last
  rw [List.head?_eq_some_head h.nonempty] at hhead
  rw [List.getLast?_eq_some_getLast h.nonempty] at hlast
  have hfirst : Text.isBlank (cs.head h.nonempty) = false :=
    not_isBlank_of_isPrintable (h.printable _ (List.head_mem _)) fun heq => hhead (by rw [heq])
  have hend : Text.isBlank (cs.getLast h.nonempty) = false :=
    not_isBlank_of_isPrintable (h.printable _ (List.getLast_mem _)) fun heq => hlast (by rw [heq])
  have hdrop : cs.dropWhile Text.isBlank = cs := by
    rw [← List.cons_head_tail h.nonempty, List.dropWhile_cons_of_neg (by simp [hfirst])]
  have hdrop' : (blank ++ cs).dropWhile Text.isBlank = cs := by
    have hcases : blank = [] ∨ blank = [' '] := by simpa using hblank
    rcases hcases with rfl | rfl
    · exact hdrop
    · rw [List.singleton_append, List.dropWhile_cons_of_pos (by decide), hdrop]
  rw [Text.trim, hdrop', Text.trimEnd]
  conv_lhs => rw [← List.dropLast_concat_getLast h.nonempty]
  rw [List.reverse_append, List.reverse_singleton, List.singleton_append,
    List.dropWhile_cons_of_neg (by simp [hend]), List.reverse_cons, List.reverse_reverse,
    List.dropLast_concat_getLast]

theorem single {c : Char} (h : isPrintable c = true) (hc : c ≠ ' ') : Tidy [c] :=
  ⟨nofun, by simpa using h, by rw [squeezed_of_ne hc]; rfl, by simpa using hc, by simpa using hc⟩

theorem cons {c : Char} (h : isPrintable c = true) (hc : c ≠ ' ') (h' : Tidy cs) : Tidy (c :: cs) :=
  (single h hc).append h'

/-- A word is tidy, as it has no blanks at all. -/
theorem of_forall (hne : cs ≠ []) (h : ∀ c ∈ cs, isPrintable c = true ∧ c ≠ ' ') : Tidy cs := by
  induction cs with
  | nil => exact absurd rfl hne
  | cons c cs ih =>
    obtain ⟨hc, hcs⟩ := List.forall_mem_cons.mp h
    cases cs with
    | nil => exact single hc.1 hc.2
    | cons d cs => exact cons hc.1 hc.2 (ih nofun hcs)

theorem of_word (h : (!cs.isEmpty && cs.all fun c => isPrintable c && c != ' ') = true) :
    Tidy cs := by
  rw [Bool.and_eq_true, List.all_eq_true] at h
  exact of_forall (by simpa using h.1) fun c hc => by simpa using h.2 c hc

end Tidy

theorem isPrintable_of_isAlphanum {c : Char} (h : c.isAlphanum = true ∨ c = '_') :
    isPrintable c = true ∧ c ≠ ' ' := by
  rcases h with h | rfl
  · unfold Char.isAlphanum at h
    delta Char.isAlpha Char.isUpper Char.isLower Char.isDigit at h
    simp only [Bool.or_eq_true, Bool.and_eq_true, decide_eq_true_eq, ge_iff_le,
      UInt32.le_iff_toNat_le] at h
    have hcode : c.toNat = c.val.toNat := rfl
    have hbound : 48 ≤ c.toNat ∧ c.toNat ≤ 122 := by
      have h1 : 'Z'.val.toNat = 90 := rfl
      have h2 : 'z'.val.toNat = 122 := rfl
      have h3 : '9'.val.toNat = 57 := rfl
      have h4 : 'A'.val.toNat = 65 := rfl
      have h5 : 'a'.val.toNat = 97 := rfl
      have h6 : '0'.val.toNat = 48 := rfl
      omega
    refine ⟨by simp only [isPrintable, Bool.and_eq_true, decide_eq_true_eq]; omega, ?_⟩
    rintro rfl
    exact absurd hbound.1 (by decide)
  · decide

theorem IsName.tidy {n : String} (h : IsName n) : Tidy n.toList := by
  obtain ⟨c, cs, hcs, hc, hmore⟩ := h.chars
  rw [hcs]
  refine .of_forall nofun (List.forall_mem_cons.mpr ⟨?_, fun d hd => ?_⟩)
  · refine isPrintable_of_isAlphanum ?_
    simp only [startsName, Bool.or_eq_true, beq_iff_eq] at hc
    exact hc.imp_left fun hc => by simp [Char.isAlphanum, hc]
  · refine isPrintable_of_isAlphanum ?_
    simpa [continuesName] using hmore d hd

theorem IsWhole.tidy {digits : List Char} (h : IsWhole digits) : Tidy digits := by
  refine .of_forall h.nonempty fun d hd => isPrintable_of_isAlphanum (.inl ?_)
  simp [Char.isAlphanum, h.allDigits d hd]

theorem IsNumber.tidy {lexeme : String} (h : IsNumber lexeme) :
    Tidy (Numeral.normalized lexeme).toList := by
  rw [Numeral.normalized, String.toList_ofList]
  obtain ⟨digits, hdigits, heq | heq⟩ := h.normal
  · rw [heq]
    exact hdigits.tidy
  · rw [heq]
    exact hdigits.tidy.cons (by decide) (by decide)

/-! ### Lines -/

/-- A line without its end. -/
def Line.chars : Line → List Char
  | opening => "INDENT".toList
  | closing => "UNINDENT".toList
  | code text => text.toList

/-- The text of lines is the lines with their ends. -/
theorem toList_join (ls : List Line) :
    (String.join (ls.map Line.text)).toList = Text.unlines (ls.map Line.chars) := by
  induction ls with
  | nil => rfl
  | cons l ls ih =>
    have htext : l.text.toList = l.chars ++ ['\n'] := by
      cases l with
      | opening => decide +kernel
      | closing => decide +kernel
      | code text => rw [Line.text, String.toList_append]; rfl
    rw [List.map_cons, List.map_cons, String.join_cons, String.toList_append, htext, ih,
      Text.unlines_cons, List.append_assoc, List.singleton_append]

/-- The lines of a text are those that it was put together from. -/
theorem lines_join {ls : List Line} (h : ∀ l ∈ ls, ∀ c ∈ l.chars, isPrintable c = true) :
    Text.lines (String.join (ls.map Line.text)).toList = ls.map Line.chars := by
  rw [toList_join, Text.lines_unlines]
  rw [List.forall_mem_map]
  intro l hl
  exact ⟨fun hc => (isPrintable_ne (h l hl _ hc)).1 rfl, fun hc => (isPrintable_ne (h l hl _ hc)).2 rfl⟩

end Growth.Pseudo
