import Growth.Proofs.Binary64.Text
import Growth.Proofs.Code.Lexemes

/-! The text of a finite number without a sign is one token, which is that number. -/

namespace Growth.Code

open Decimal Binary64

/-- Digits belong to a number, whatever follows them. -/
theorem numeral_digits {ds : List Char} (h : AllDigits ds) (fractional letter : Bool)
    (cs : List Char) : ∃ letter', (ds = [] → letter' = letter) ∧
      numeral fractional letter (ds ++ cs) =
        (ds ++ (numeral fractional letter' cs).1, (numeral fractional letter' cs).2) := by
  induction ds generalizing letter with
  | nil => exact ⟨letter, fun _ => rfl, rfl⟩
  | cons d ds ih =>
    obtain ⟨letter', -, ih⟩ := ih (fun c hc => h c (.tail _ hc)) false
    refine ⟨letter', nofun, ?_⟩
    rw [List.cons_append, numeral, if_pos (by simp [h d (.head _)]), ih]
    rfl

theorem numeral_digits_end {ds : List Char} (h : AllDigits ds) (fractional letter : Bool) :
    numeral fractional letter ds = (ds, fractional) := by
  obtain ⟨letter', -, hds⟩ := numeral_digits h fractional letter []
  rw [List.append_nil] at hds
  rw [hds, numeral, List.append_nil]

theorem head?_toDigits (n : Nat) : (Nat.toDigits 10 n).head?.any Char.isDigit = true := by
  cases h : Nat.toDigits 10 n with
  | nil => exact absurd h Nat.toDigits_ne_nil
  | cons c cs => exact allDigits_toDigits n c (h ▸ .head _)

theorem startsExponent_toString (e : Int) : startsExponent (toString e).toList = true := by
  rw [toString_toList]
  split
  · cases h : Nat.toDigits 10 e.toNat with
    | nil => exact absurd h Nat.toDigits_ne_nil
    | cons c cs =>
      have hc : c.isDigit = true := allDigits_toDigits e.toNat c (h ▸ .head _)
      obtain ⟨h1, h2⟩ := not_isDigit_sign hc
      rw [startsExponent]
      · exact hc
      · rintro _ ⟨⟩
        exact h2 rfl
      · rintro _ ⟨⟩
        exact h1 rfl
  · exact head?_toDigits _

theorem numeral_toString (e : Int) :
    numeral true true (toString e).toList = ((toString e).toList, true) := by
  rw [toString_toList]
  split
  · exact numeral_digits_end (allDigits_toDigits _) true true
  · rw [numeral, if_pos (by decide), numeral_digits_end (allDigits_toDigits _)]

theorem numeral_exponentText (fractional letter : Bool) (x : Option Int) :
    numeral fractional letter (exponentText x) =
      (exponentText x, fractional || x.isSome) := by
  cases x with
  | none => simp [exponentText, numeral]
  | some e =>
    rw [exponentText, numeral, if_neg (by simp), if_neg (by simp),
      if_pos (by rw [startsExponent_toString]; decide), numeral_toString]
    simp

/-- A number takes all that is written of a decimal. -/
theorem numeral_written {whole : List Char} (hwhole : AllDigits whole)
    {point : Option (List Char)} (hpoint : ∀ places ∈ point, AllDigits places) (x : Option Int) :
    numeral false false (whole ++ (pointText point ++ exponentText x)) =
      (whole ++ (pointText point ++ exponentText x), point.isSome || x.isSome) := by
  obtain ⟨letter, -, hw⟩ := numeral_digits hwhole false false (pointText point ++ exponentText x)
  rw [hw]
  cases point with
  | none =>
    rw [pointText, List.nil_append, numeral_exponentText]
    rfl
  | some places =>
    obtain ⟨letter', -, hp⟩ := numeral_digits (hpoint places rfl) true false (exponentText x)
    rw [pointText, List.cons_append, numeral, if_neg (by simp), if_pos (by decide), hp,
      numeral_exponentText]
    rfl

theorem ne_underscore_of_isDigit {c : Char} (h : c.isDigit = true) : c ≠ '_' := by
  rintro rfl
  exact absurd h (by decide)

/-- No underscore is written. -/
theorem filter_written {whole : List Char} (hwhole : AllDigits whole)
    {point : Option (List Char)} (hpoint : ∀ places ∈ point, AllDigits places) (x : Option Int) :
    (whole ++ (pointText point ++ exponentText x)).filter (· != '_') =
      whole ++ (pointText point ++ exponentText x) := by
  have hpointText : ∀ c ∈ pointText point, c ≠ '_' := by
    cases point with
    | none => nofun
    | some places =>
      exact List.forall_mem_cons.mpr
        ⟨by decide, fun c hc => ne_underscore_of_isDigit (hpoint places rfl c hc)⟩
  have hexponentText : ∀ c ∈ exponentText x, c ≠ '_' := by
    cases x with
    | none => nofun
    | some e =>
      refine List.forall_mem_cons.mpr ⟨by decide, ?_⟩
      rw [toString_toList]
      split
      · exact fun c hc => ne_underscore_of_isDigit (allDigits_toDigits _ c hc)
      · exact List.forall_mem_cons.mpr
          ⟨by decide, fun c hc => ne_underscore_of_isDigit (allDigits_toDigits _ c hc)⟩
  rw [List.filter_eq_self]
  intro c hc
  rw [bne_iff_ne]
  rcases List.mem_append.mp hc with hc | hc
  · exact ne_underscore_of_isDigit (hwhole c hc)
  · rcases List.mem_append.mp hc with hc | hc
    · exact hpointText c hc
    · exact hexponentText c hc

variable {m : Fin (2047 * 2 ^ 52 + 1)}

/-- A decimal as it is written is one token. -/
theorem spells_of_written {cs whole : List Char} {digits : Nat} {e : Int}
    {point : Option (List Char)} {x : Option Int} (h : Written cs digits e whole point x)
    (hm : ofScaled digits e = m) : Spells cs (.float (number false m)) := by
  obtain ⟨hne, hwhole, hpoint, hfractional, rfl, hvalue⟩ := h
  have hf : (point.isSome || x.isSome) = true := by
    cases point <;> cases x <;> simp_all
  have hnumeral := numeral_written hwhole hpoint x
  cases whole with
  | nil => exact absurd rfl hne
  | cons c whole =>
    have hc : c.isDigit = true := hwhole c (.head _)
    refine ⟨c, _, rfl, lexeme_of_number (startsName_of_isDigit hc) (by simp [hc]) hnumeral ?_⟩
    rw [hf, numberKind?]
    simp only [filter_written hwhole hpoint x, read?_written hne hwhole hpoint x]
    rw [if_true, Option.map_some, ofDecimal, hvalue, hm]

theorem written_zero : Written ['0', '.', '0'] 0 (-1) ['0'] (some ['0']) none := by
  refine ⟨by simp, by simp [AllDigits], by simp [AllDigits], .inl nofun, rfl, ?_⟩
  exact congrArg₂ ofScaled (by decide) (by decide)

/-- The text of a finite number without a sign is that number. -/
theorem spells_float (h : m.val < infinite) :
    Spells (number false m).text.toList (.float (number false m)) := by
  rw [text, if_neg (by decide), String.toList_ofList, magnitudeText, if_neg (Nat.ne_of_lt h)]
  by_cases h0 : m.val = 0
  · rw [if_pos h0]
    exact spells_of_written written_zero (Fin.ext ((ofScaled_zero (-1)).trans h0.symm))
  · rw [if_neg h0]
    obtain ⟨hpos, hread⟩ := ofScaled_shortest h0 h
    generalize shortest m = decimal at hpos hread
    obtain ⟨digits, e⟩ := decimal
    obtain ⟨whole, point, x, hwritten⟩ := decimalText_written hpos e
    exact spells_of_written hwritten hread

end Growth.Code
