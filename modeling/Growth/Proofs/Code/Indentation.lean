import Growth.Proofs.Code.Lines

/-! Only the order of indentations matters. Where every line that begins in a block or opens one is
indented anew, and wider lines stay wider, the blocks and the words of the text stay the same. -/

namespace Growth.Code

/-! ### Other widths -/

/-- The line with other blanks in front: `μ l` spaces where the line was indented by `l`. -/
def indentedBy (μ : Nat → Nat) (line : List Char) : List Char :=
  List.replicate (μ (level (line.takeWhile isInlineBlank))) ' ' ++ line.dropWhile isInlineBlank

namespace Stand

/-- The line as it is after other widths are taken: what goes on from the line before has none. -/
def indentedBy (μ : Nat → Nat) (line : List Char) : Stand → List Char
  | starting _ => Code.indentedBy μ line
  | inside _ _ _ => line

/-- The lines with other widths, as far as they are scanned. -/
def reindented (μ : Nat → Nat) (σ : Stand) : List (List Char) → List (List Char)
  | [] => []
  | line :: lines =>
    σ.indentedBy μ line :: match σ.read (!lines.isEmpty) line with
      | .error _ => lines
      | .ok r => r.2.reindented μ lines

/-- The same place, with other widths of the blocks. -/
def widthsBy (μ : Nat → Nat) : Stand → Stand
  | starting ws => starting (ws.map μ)
  | inside bs ws hasTokens => inside bs (ws.map μ) hasTokens

end Stand

/-- The text with other widths: on each line in front of which the scanner measures blanks of a
width `l`, `μ l` spaces take their place. -/
def reindented (μ : Nat → Nat) (source : String) : String :=
  String.ofList (['\n'].intercalate
    ((Stand.starting []).reindented μ (source.toList.splitOn '\n')))

section

variable {μ : Nat → Nat} {ended : Bool} {line : List Char} {ws : List Nat} {σ : Stand}

theorem headD_map (hzero : μ 0 = 0) (ws : List Nat) : (ws.map μ).headD 0 = μ (ws.headD 0) := by
  cases ws with
  | nil => exact hzero.symm
  | cons w ws => rfl

/-- The same blocks begin and end where the order of widths is the same. -/
theorem moved_map (hμ : StrictMono μ) (hzero : μ 0 = 0) (ws : List Nat) (width : Nat) :
    moved (ws.map μ) (μ width) = (moved ws width).map (Prod.map id (List.map μ)) := by
  have hwider : (fun w => decide (μ width < w)) ∘ μ = fun w => decide (width < w) := by
    funext w
    simp [hμ.lt_iff_lt]
  have hleft : (ws.map μ).dropWhile (μ width < ·) = (ws.dropWhile (width < ·)).map μ := by
    rw [List.dropWhile_map, hwider]
  have hclosed : (ws.map μ).takeWhile (μ width < ·) = (ws.takeWhile (width < ·)).map μ := by
    rw [List.takeWhile_map, hwider]
  unfold moved
  rw [hleft, hclosed, headD_map hzero, headD_map hzero]
  simp only [hμ.lt_iff_lt, hμ.injective.eq_iff]
  split
  · rfl
  split
  · simp [Except.map, Function.comp_def]
  · rfl

theorem isInlineBlank_of_mem_replicate {n : Nat} {c : Char} (h : c ∈ List.replicate n ' ') :
    isInlineBlank c = true := by
  rw [List.eq_of_mem_replicate h]
  rfl

theorem dropWhile_indentedBy (line : List Char) :
    (indentedBy μ line).dropWhile isInlineBlank = line.dropWhile isInlineBlank := by
  rw [indentedBy, List.dropWhile_append_of_pos fun _ => isInlineBlank_of_mem_replicate,
    List.dropWhile_idempotent]

theorem takeWhile_indentedBy (line : List Char) : (indentedBy μ line).takeWhile isInlineBlank =
    List.replicate (μ (level (line.takeWhile isInlineBlank))) ' ' := by
  have hparts : (indentedBy μ line).takeWhile isInlineBlank ++
      (indentedBy μ line).dropWhile isInlineBlank = indentedBy μ line :=
    List.takeWhile_append_dropWhile
  rw [dropWhile_indentedBy] at hparts
  exact List.append_cancel_right hparts

theorem level_replicate (n : Nat) : level (List.replicate n ' ') = n := by
  induction n with
  | zero => rfl
  | succ n ih =>
    rw [List.replicate_succ', level, List.foldl_append, ← level, ih]
    rfl

theorem Words.behind_map (r : Words) (hasTokens : Bool) :
    r.behind ended (ws.map μ) hasTokens =
      (r.behind ended ws hasTokens).map id (Stand.widthsBy μ) := by
  unfold Words.behind
  split <;> rfl

/-- A line is read alike with other widths. -/
theorem Stand.read_indentedBy (hμ : StrictMono μ) (hzero : μ 0 = 0) (ended : Bool)
    (line : List Char) (σ : Stand) : (σ.widthsBy μ).read ended (σ.indentedBy μ line) =
      (σ.read ended line).map (Prod.map id (widthsBy μ)) := by
  cases σ with
  | inside bs ws hasTokens =>
    rw [widthsBy, indentedBy, read, read]
    cases words ended bs line with
    | error e => rfl
    | ok r => exact congrArg Except.ok (r.behind_map hasTokens)
  | starting ws =>
    have htokenless : tokenless (Code.indentedBy μ line) = tokenless line := by
      rw [tokenless, tokenless, dropWhile_indentedBy]
    rw [widthsBy, indentedBy, read, read, htokenless, takeWhile_indentedBy, dropWhile_indentedBy,
      level_replicate, moved_map hμ hzero]
    split
    · rfl
    cases moved ws (level (line.takeWhile isInlineBlank)) with
    | error e => rfl
    | ok m =>
      cases words ended [] (line.dropWhile isInlineBlank) with
      | error e => simp [Except.map, Except.bind]
      | ok r => simp [Except.map, Except.bind, r.behind_map, Prod.map]

theorem Stand.closing_widthsBy (σ : Stand) : (σ.widthsBy μ).closing = σ.closing := by
  cases σ <;> simp [widthsBy, closing, Function.comp_def]

theorem Stand.isEmpty_reindented (σ : Stand) (lines : List (List Char)) :
    (σ.reindented μ lines).isEmpty = lines.isEmpty := by
  cases lines <;> rfl

/-- Lines are read alike with other widths. -/
theorem Stand.kinds_widthsBy (hμ : StrictMono μ) (hzero : μ 0 = 0) (lines : List (List Char))
    (σ : Stand) : (σ.widthsBy μ).kinds (σ.reindented μ lines) = σ.kinds lines := by
  induction lines generalizing σ with
  | nil => exact congrArg Except.ok σ.closing_widthsBy
  | cons line lines ih =>
    rw [reindented, kinds, kinds]
    cases hread : σ.read (!lines.isEmpty) line with
    | error e =>
      -- Behind an error the lines are as they were.
      rw [read_indentedBy hμ hzero, hread]
      rfl
    | ok r =>
      dsimp only
      rw [isEmpty_reindented, read_indentedBy hμ hzero, hread]
      change ((r.2.widthsBy μ).kinds (r.2.reindented μ lines)).map _ = _
      rw [ih]
      rfl

theorem not_mem_indentedBy (h : '\n' ∉ line) (σ : Stand) : '\n' ∉ σ.indentedBy μ line := by
  cases σ with
  | inside bs ws hasTokens => exact h
  | starting ws =>
    rw [Stand.indentedBy, Code.indentedBy, List.mem_append, not_or]
    refine ⟨fun hmem => ?_, fun hmem => h ((List.dropWhile_suffix _).subset hmem)⟩
    exact absurd (List.eq_of_mem_replicate hmem) (by decide)

theorem not_mem_reindented {lines : List (List Char)} (h : ∀ line ∈ lines, '\n' ∉ line)
    (σ : Stand) : ∀ line ∈ σ.reindented μ lines, '\n' ∉ line := by
  induction lines generalizing σ with
  | nil => nofun
  | cons line lines ih =>
    rw [List.forall_mem_cons] at h
    rw [Stand.reindented, List.forall_mem_cons]
    refine ⟨not_mem_indentedBy h.1 σ, ?_⟩
    split
    · exact h.2
    · exact ih h.2 _

/-- A text has the same tokens, or the same error, with other widths in the same order. -/
theorem kinds_reindented (hμ : StrictMono μ) (hzero : μ 0 = 0) (source : String) :
    kinds (reindented μ source) = kinds source := by
  have hne : (Stand.starting []).reindented μ (source.toList.splitOn '\n') ≠ [] := by
    rw [ne_eq, ← List.isEmpty_iff, Stand.isEmpty_reindented, List.isEmpty_iff]
    exact List.splitOn_ne_nil _ _
  rw [kinds_eq_lines, kinds_eq_lines, reindented, String.toList_ofList,
    List.splitOn_intercalate _ (not_mem_reindented (fun _ => not_mem_of_mem_splitOn) _) hne]
  exact Stand.kinds_widthsBy hμ hzero _ (.starting [])

set_option maxRecDepth 4000 in
/-- A body behind a tab is the same behind sixteen spaces. Its second line is inside brackets. -/
theorem kinds_reindented_tab :
    reindented (2 * ·) "if a:\n\tb(\n\tc)\n" = "if a:\n                b(\n\tc)\n" ∧
      kinds "if a:\n                b(\n\tc)\n" = kinds "if a:\n\tb(\n\tc)\n" := by
  have htext : reindented (2 * ·) "if a:\n\tb(\n\tc)\n" =
      "if a:\n                b(\n\tc)\n" := by cbv
  have hmono : StrictMono (2 * · : Nat → Nat) :=
    fun _ _ h => Nat.mul_lt_mul_of_pos_left h (by decide)
  exact ⟨htext, htext ▸ kinds_reindented hmono rfl "if a:\n\tb(\n\tc)\n"⟩

end

end Growth.Code
