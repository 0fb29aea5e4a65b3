import Growth.Proofs.Code.DenotesLines

/-! Lines with blank lines between them. The scanner passes a blank line without a token, so what is
put together from such texts is read as their statements, one after the other. -/

namespace Growth.Code

/-- Lines that are in no block, and how many blank lines come after them. -/
structure Paragraph where
  outlines : List Outline
  blank : Nat

namespace Paragraph

/-- The text of a paragraph. -/
def text (unit : List Char) (p : Paragraph) : List Char :=
  Outline.linesOf unit 0 p.outlines ++ blankLines p.blank

/-- The kinds of its tokens. -/
def kinds (p : Paragraph) : List Kind :=
  Outline.kindsOf p.outlines

/-- There are lines in the paragraph, and they are scanned as they are said to be. -/
structure Sound (p : Paragraph) : Prop where
  nonempty : p.outlines ≠ []
  outlines : Outline.AllSound p.outlines

variable {unit : List Char} {width : Nat} {p : Paragraph} {ps : List Paragraph} {s : Scanner}
  {rest : List Char}

theorem Sound.fits (h : p.Sound) (rest : List Char) : Fits unit 0 (p.text unit ++ rest) := by
  obtain ⟨os, n⟩ := p
  obtain ⟨hne, hsound⟩ := h
  cases os with
  | nil => exact absurd rfl hne
  | cons o os =>
    obtain ⟨c, cs, hc, htext⟩ :=
      o.text_eq 0 ('\n' :: (Outline.linesOf unit 0 os ++ blankLines n ++ rest)) hsound.1
    rw [Outline.text_newline] at htext
    have hline : Paragraph.text unit ⟨o :: os, n⟩ ++ rest = indentation unit 0 ++ c :: cs := by
      rw [← htext, text, Outline.linesOf]
      simp only [List.append_assoc]
    exact hline ▸ .line hc cs

theorem fits_text (h : ∀ p ∈ ps, p.Sound) : Fits unit 0 (ps.flatMap (text unit)) := by
  cases ps with
  | nil => exact .nil
  | cons p ps =>
    rw [List.flatMap_cons]
    exact (h p (.head _)).fits _

/-- A paragraph is scanned as its kinds. -/
theorem leads (hu : Indents unit width) (hp : p.Sound) (hrest : Fits unit 0 rest)
    (h : s.Starts [] (p.text unit ++ rest)) : ∃ s', s.Leads p.kinds s' ∧ s'.Starts [] rest := by
  have htext : p.text unit ++ rest =
      (Outline.under unit 0 ('\n' :: (blankLines p.blank ++ rest)) p.outlines).tail := by
    rw [Outline.under_newline, List.tail_cons, text, List.append_assoc]
  have hends : EndsLine unit 0 ('\n' :: (blankLines p.blank ++ rest)) :=
    .inr ⟨_, rfl, hrest.blank p.blank⟩
  rw [htext] at h
  obtain ⟨s₁, hleads₁, hstarts₁⟩ := Outline.leads_all hu _ hp.nonempty hp.outlines hends h
  obtain ⟨hleads₂, hstarts₂⟩ := hstarts₁.leads_blank
  exact ⟨_, by simpa [kinds] using hleads₁.trans hleads₂, hstarts₂⟩

theorem leads_all (hu : Indents unit width) (hps : ∀ p ∈ ps, p.Sound)
    (h : s.Starts [] (ps.flatMap (text unit))) :
    ∃ s', s.Leads (ps.flatMap kinds) s' ∧ s'.Starts [] [] := by
  induction ps generalizing s with
  | nil => exact ⟨s, .refl s, h⟩
  | cons p ps ih =>
    obtain ⟨hp, hps⟩ := List.forall_mem_cons.mp hps
    rw [List.flatMap_cons] at h
    obtain ⟨s₁, hleads₁, hstarts₁⟩ := leads hu hp (fits_text hps) h
    obtain ⟨s₂, hleads₂, hstarts₂⟩ := ih hps hstarts₁
    exact ⟨s₂, hleads₁.trans hleads₂, hstarts₂⟩

end Paragraph

/-- The text `cs` is paragraphs that are scanned and read as statements, or not at all. -/
def DenotesText (unit : List Char) (cs : List Char) (o : Option (List Statement)) : Prop :=
  ∃ ps : List Paragraph, ps.flatMap (Paragraph.text unit) = cs ∧ (∀ p ∈ ps, p.Sound) ∧
    ReadsBlock (ps.flatMap Paragraph.kinds) o

namespace DenotesText

variable {unit : List Char} {cs cs' : List Char} {o o' : Option (List Statement)}

theorem of_lines (h : DenotesLines unit 0 cs o) (hcs : cs ≠ []) (n : Nat) :
    DenotesText unit (cs ++ blankLines n) o := by
  obtain ⟨os, rfl, hsound, hreads⟩ := h
  have hos : os ≠ [] := by
    rintro rfl
    exact hcs rfl
  refine ⟨[⟨os, n⟩], ?_, List.forall_mem_singleton.mpr ⟨hos, hsound⟩, ?_⟩
  · simp [Paragraph.text]
  · simpa [Paragraph.kinds] using hreads

theorem append (h : DenotesText unit cs o) (h' : DenotesText unit cs' o') :
    DenotesText unit (cs ++ cs') (o.bind fun ss => o'.map fun ss' => ss ++ ss') := by
  obtain ⟨ps, rfl, hsound, hreads⟩ := h
  obtain ⟨ps', rfl, hsound', hreads'⟩ := h'
  refine ⟨ps ++ ps', List.flatMap_append, List.forall_mem_append.mpr ⟨hsound, hsound'⟩, ?_⟩
  rw [List.flatMap_append]
  exact hreads.append hreads'

/-- A text that is paragraphs of statements is a program. -/
theorem ofText {width : Nat} (hu : Indents unit width) {ss : List Statement}
    (h : DenotesText unit cs (some ss)) {source : String} (hsource : source.toList = cs) :
    Module.ofText source = .ok ⟨ss⟩ := by
  obtain ⟨ps, rfl, hsound, hreads⟩ := h
  have hstarts : (Scanner.ofText source).Starts [] (ps.flatMap (Paragraph.text unit)) :=
    ⟨hsource, rfl, rfl, rfl, rfl, rfl, rfl⟩
  obtain ⟨s', hleads, hstarts'⟩ := Paragraph.leads_all hu hsound hstarts
  obtain ⟨ts, htokens, hkinds⟩ := hleads.tokens_of_end hstarts'
  unfold Module.ofText
  rw [tokens, htokens]
  exact hreads.ofTokens hkinds

end DenotesText

end Growth.Code
