import Growth.Proofs.Code.Lexemes

/-! How tokens are written. What is found at the beginning of a text is written with the characters
that it takes up there. -/

namespace Growth.Code

/-- How a token of the kind is written. The end of the last line may be missing. -/
def Kind.Written : Kind → List Char → Prop
  | identifier n, text => text = n.toList
  | integer l, text => text = l.toList
  | float v, text => ∃ d, Decimal.read? (text.filter (· != '_')) = some d ∧ v = .ofDecimal d
  | string s, text => ∃ quote, (quote = '"' ∨ quote = '\'') ∧ text = quote :: s.toList ++ [quote]
  | keyword k, text => (String.ofList text, k) ∈ Keyword.table
  | mark m, text => (text, m) ∈ Mark.table
  | newline, text => text = ['\n'] ∨ text = []
  | indent, text | dedent, text | endOfFile, text => text = []

theorem quotation_isPrefix {quote : Char} {escaped : Bool} {cs content : List Char}
    (h : quotation quote escaped cs = (content, true)) : content ++ [quote] <+: cs := by
  induction cs generalizing escaped content with
  | nil => cases h
  | cons c cs ih =>
    rw [quotation] at h
    split at h
    · cases h
    split at h
    · rename_i hq
      cases h
      simp only [Bool.and_eq_true, beq_iff_eq] at hq
      rw [hq.1]
      exact ⟨cs, rfl⟩
    · obtain ⟨rfl, hclosed⟩ := Prod.ext_iff.mp h
      exact List.prefix_cons_inj c |>.mpr (ih (Prod.ext rfl hclosed))

theorem numeral_isPrefix (fractional letter : Bool) (cs : List Char) :
    (numeral fractional letter cs).1 <+: cs := by
  induction cs generalizing fractional letter with
  | nil => exact List.nil_prefix
  | cons c cs ih =>
    rw [numeral]
    split
    · exact List.prefix_cons_inj c |>.mpr (ih _ _)
    split
    · exact List.prefix_cons_inj c |>.mpr (ih _ _)
    split
    · exact List.prefix_cons_inj c |>.mpr (ih _ _)
    · exact List.nil_prefix

theorem written_nameKind (text : List Char) : (nameKind (String.ofList text)).Written text := by
  unfold nameKind
  split
  · rename_i k hk
    obtain ⟨l₁, l₂, htable, -⟩ := List.lookup_eq_some_iff.mp hk
    change (String.ofList text, k) ∈ Keyword.table
    rw [htable]
    exact List.mem_append_right l₁ List.mem_cons_self
  · exact String.toList_ofList.symm

theorem written_numberKind? {text : List Char} {fractional : Bool} {k : Kind}
    (h : numberKind? text fractional = some k) : k.Written text := by
  unfold numberKind? at h
  dsimp only at h
  split at h
  · obtain ⟨d, hd, rfl⟩ := Option.map_eq_some_iff.mp h
    exact ⟨d, hd, rfl⟩
  split at h
  · cases h
  · cases h
    exact String.toList_ofList.symm

theorem written_of_lexeme {c : Char} {cs chars : List Char} {k : Kind}
    (h : lexeme c cs = .token k chars) : chars <+: c :: cs ∧ k.Written chars := by
  obtain ⟨content, hc, hq, rfl, rfl⟩ | ⟨-, rfl, rfl⟩ | ⟨-, -, f, hn, hk⟩ := lexeme_cases h
  · refine ⟨List.prefix_cons_inj c |>.mpr (quotation_isPrefix hq), c, hc, ?_⟩
    rw [String.toList_ofList]
  · exact ⟨List.prefix_cons_inj c |>.mpr (List.takeWhile_prefix _), written_nameKind _⟩
  · refine ⟨?_, written_numberKind? hk⟩
    have hprefix := numeral_isPrefix false false (c :: cs)
    rwa [hn] at hprefix

theorem written_of_sign {c : Char} {cs chars : List Char} {m : Mark}
    (h : lexeme c cs = .sign m chars) : chars <+: c :: cs ∧ (Kind.mark m).Written chars := by
  have hmark : mark? (c :: cs) = some (chars, m) := by
    unfold lexeme at h
    split at h
    · split at h <;> cases h
    split at h
    · cases h
    split at h
    · dsimp only at h
      split at h <;> cases h
    · split at h
      · rename_i hm
        cases h
        exact hm
      · cases h
  exact ⟨List.isPrefixOf_iff_prefix.mp (List.find?_some hmark :),
    List.mem_of_find?_eq_some hmark⟩

end Growth.Code
