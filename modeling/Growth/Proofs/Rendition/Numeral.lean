import Growth.Proofs.Rendition.Spelling

/-! Numbers in pseudocode have a normal form: the decimal text of the whole number that they stand
for. In target code this text is that number again, and a minus of its own if it is negative. -/

namespace Growth

namespace Pseudo.Numeral

open Decimal

/-- The whole number that digits stand for, with a sign in front or without. -/
def value (lexeme : String) : Int :=
  match lexeme.toList with
  | '-' :: digits => -(ofDigits digits : Int)
  | '+' :: digits => ofDigits digits
  | digits => ofDigits digits

theorem value_eq (lexeme : String) : value lexeme =
    if (unsigned lexeme.toList).1 then -(ofDigits (unsigned lexeme.toList).2 : Int)
    else ofDigits (unsigned lexeme.toList).2 := by
  unfold value
  split
  · rename_i hminus
    rw [hminus]
    rfl
  · rename_i hplus
    rw [hplus]
    rfl
  · rename_i hminus hplus
    rw [unsigned]
    · rfl
    · exact hminus
    · exact hplus

theorem value_of_digits {lexeme : String} (sign digits : List Char)
    (hlexeme : lexeme.toList = sign ++ digits) (hsign : sign ∈ [[], ['+'], ['-']])
    (hdigits : AllDigits digits) :
    value lexeme = if sign = ['-'] then -(ofDigits digits : Int) else ofDigits digits := by
  rw [value_eq, hlexeme, unsigned_of_digits hsign hdigits]
  simp only [decide_eq_true_eq]

/-! ### Decimal texts -/

theorem isNumber_toString (z : Int) : IsNumber (toString z) := by
  rw [IsNumber, toString_toList]
  split
  · exact ⟨[], _, rfl, by decide, Nat.toDigits_ne_nil, allDigits_toDigits _⟩
  · exact ⟨['-'], _, rfl, by decide, Nat.toDigits_ne_nil, allDigits_toDigits _⟩

theorem value_toString (z : Int) : value (toString z) = z := by
  have htext := toString_toList z
  split at htext
  · rename_i hz
    have hvalue := value_of_digits [] (Nat.toDigits 10 z.toNat) htext (by decide)
      (allDigits_toDigits _)
    rw [if_neg (by decide), ofDigits_toDigits] at hvalue
    exact hvalue.trans (Int.toNat_of_nonneg hz)
  · have hvalue := value_of_digits ['-'] (Nat.toDigits 10 (-z).toNat) htext (by decide)
      (allDigits_toDigits _)
    rw [if_pos rfl, ofDigits_toDigits] at hvalue
    omega

/-- The normal form of a number is its decimal text. -/
theorem normalized_eq {lexeme : String} (h : IsNumber lexeme) :
    normalized lexeme = toString (value lexeme) := by
  obtain ⟨sign, digits, hlexeme, hsign, -, hdigits⟩ := h
  rw [normalized, ← String.toList_inj, String.toList_ofList, toString_toList,
    value_of_digits sign digits hlexeme hsign hdigits, normal, hlexeme,
    unsigned_of_digits hsign hdigits]
  dsimp only
  rw [dropWhile_zeros hdigits]
  by_cases hzero : ofDigits digits = 0
  · rw [if_pos hzero, hzero]
    simp
  rw [if_neg hzero]
  cases hcs : Nat.toDigits 10 (ofDigits digits) with
  | nil => exact absurd hcs Nat.toDigits_ne_nil
  | cons c cs =>
    by_cases hminus : sign = ['-']
    · have hneg : ¬(0 : Int) ≤ -(ofDigits digits : Int) := by omega
      simp only [if_pos hminus, if_neg hneg, decide_eq_true hminus]
      simp [hcs]
    · simp [hminus, hcs]

end Pseudo.Numeral

/-! ### Decimal texts in target code -/

namespace Code

open Decimal

theorem spells_toDigits (n : Nat) : Spells (Nat.toDigits 10 n) (.integer (toString n)) := by
  rw [Nat.toString_eq_ofList_toDigits]
  exact (Pseudo.isWhole_toDigits n).spells

/-- A decimal text is scanned as a whole number, with a minus before it if it is negative. -/
theorem tokens_toString (z : Int) : ∃ ts, tokens (toString z) = .ok ts ∧
    ts.map Token.kind = (if z < 0 then [Kind.mark (.operator .minus)] else []) ++
      [Kind.integer (toString z.natAbs), .newline, .endOfFile] := by
  have hdigits := spells_toDigits z.natAbs
  rw [← String.ofList_toList (s := toString z), toString_toList]
  by_cases hz : z < 0
  · have habs : (-z).toNat = z.natAbs := by omega
    rw [if_neg (Int.not_le.mpr hz), if_pos hz, habs]
    exact Outline.tokens_of_line ⟨'-', _, rfl, by decide⟩ (List.cons_ne_nil _ _)
      (Scans.minus.append hdigits.scans fun _ _ => hdigits.opens.head)
  · have habs : z.toNat = z.natAbs := by omega
    rw [if_pos (Int.not_lt.mp hz), if_neg hz, habs]
    exact Outline.tokens_of_line hdigits.opens (List.cons_ne_nil _ _) hdigits.scans

end Code

namespace Pseudo.Numeral

/-- The normal form of a number is a number that stands for the same. Two numbers have the same
normal form exactly if they stand for the same, and a normal form is its own. Target code takes it
for a whole number, with a minus before it if it is negative. -/
theorem normalized_canonical {lexeme : String} (h : IsNumber lexeme) :
    normalized lexeme = toString (value lexeme) ∧ IsNumber (normalized lexeme) ∧
      value (normalized lexeme) = value lexeme ∧
      (∀ other, IsNumber other →
        (normalized other = normalized lexeme ↔ value other = value lexeme)) ∧
      normalized (normalized lexeme) = normalized lexeme ∧
      ∃ ts, Code.tokens (normalized lexeme) = .ok ts ∧
        ts.map Code.Token.kind =
          (if value lexeme < 0 then [.mark (.operator .minus)] else []) ++
            [.integer (toString (value lexeme).natAbs), .newline, .endOfFile] := by
  have hnumber : IsNumber (normalized lexeme) := by
    rw [normalized_eq h]
    exact isNumber_toString _
  have hvalue : value (normalized lexeme) = value lexeme := by
    rw [normalized_eq h, value_toString]
  refine ⟨normalized_eq h, hnumber, hvalue, fun other hother => ⟨fun heq => ?_, fun heq => ?_⟩, ?_,
    ?_⟩
  · rw [← hvalue, ← heq, normalized_eq hother, value_toString]
  · rw [normalized_eq hother, heq, normalized_eq h]
  · rw [normalized_eq hnumber, hvalue, normalized_eq h]
  · rw [normalized_eq h]
    exact Code.tokens_toString (value lexeme)

theorem normalized_canonical_zeros :
    IsNumber "-007" ∧ IsNumber "-7" ∧ value "-007" = -7 ∧ normalized "-007" = "-7" ∧
      (normalized "-7" = normalized "-007" ↔ value "-7" = value "-007") ∧
      ∃ ts, Code.tokens "-7" = .ok ts ∧
        ts.map Code.Token.kind =
          [.mark (.operator .minus), .integer "7", .newline, .endOfFile] := by
  have h : IsNumber "-007" :=
    ⟨['-'], ['0', '0', '7'], rfl, by decide, List.cons_ne_nil _ _, by simp [Decimal.AllDigits]⟩
  have h' : IsNumber "-7" :=
    ⟨['-'], ['7'], rfl, by decide, List.cons_ne_nil _ _, by simp [Decimal.AllDigits]⟩
  have hvalue : value "-007" = -7 := by decide
  obtain ⟨htext, -, -, hother, -, htokens⟩ := normalized_canonical h
  rw [hvalue] at htext htokens
  rw [htext] at htokens
  exact ⟨h, h', hvalue, htext, hother "-7" h', htokens⟩

/-- Zero has one sign. -/
example : normalized "-000" = normalized "+0" := by decide

end Pseudo.Numeral

end Growth
