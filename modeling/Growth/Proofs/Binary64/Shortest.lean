import Growth.Binary64.Shortest
import Growth.Proofs.Binary64.Rounding

/-! The shortest decimal of a finite magnitude reads back as that magnitude. -/

namespace Growth.Binary64

variable {m : Fin (2047 * 2 ^ 52 + 1)}

theorem ofScaled_of_ite {e : Int} {first second digits : Nat}
    (h : (if ofScaled first e = m then some first
      else if ofScaled second e = m then some second else none) = some digits) :
    ofScaled digits e = m := by
  split at h
  · rename_i hread
    cases h
    exact hread
  · split at h
    · rename_i hread
      cases h
      exact hread
    · exact nomatch h

/-- What is found on a grid was read back there. -/
theorem ofScaled_of_onGrid? {e : Int} {digits : Nat} (h : onGrid? m e = some digits) :
    ofScaled digits e = m := by
  unfold onGrid? at h
  exact ofScaled_of_ite h

/-! ### The exact decimal -/

theorem units_pos {c : Nat} (h : 0 < c) : 0 < units c := by
  have hs : 0 < c - (c / 2 ^ 52 - 1) * 2 ^ 52 := by omega
  exact Nat.mul_pos hs (Nat.pow_pos (by decide))

theorem units_lt {c : Nat} (h : c < infinite) : units c < 2 ^ 53 * 2 ^ 2045 := by
  have hc : c < 2047 * 2 ^ 52 := h
  have hs : c - (c / 2 ^ 52 - 1) * 2 ^ 52 < 2 ^ 53 := by omega
  have hshift : c / 2 ^ 52 - 1 ≤ 2045 := by omega
  have hle : 2 ^ (c / 2 ^ 52 - 1) ≤ 2 ^ 2045 := Nat.pow_le_pow_right (by decide) hshift
  exact Nat.mul_lt_mul_of_lt_of_le hs hle (Nat.pow_pos (by decide))

theorem digitCount_le_iff {n k : Nat} (hk : 0 < k) : digitCount n ≤ k ↔ n < 10 ^ k :=
  Nat.length_toDigits_le_iff (by decide) hk

/-- The exact decimal is neither so small nor so great that it is rounded without a look at its
digits. -/
theorem digitCount_exact {n : Nat} (h0 : 0 < n) (h : n < 2 ^ 53 * 2 ^ 2045) :
    744 ≤ digitCount (n * 5 ^ 1074) ∧ digitCount (n * 5 ^ 1074) ≤ 1385 := by
  have hlow : 10 ^ 743 ≤ 5 ^ 1074 := by decide +kernel
  have hhigh : 2 ^ 53 * 2 ^ 2045 * 5 ^ 1074 ≤ 10 ^ 1385 := by decide +kernel
  have hpos : 0 < 5 ^ 1074 := Nat.pow_pos (by decide)
  constructor
  · refine Nat.le_of_not_lt fun hlt => ?_
    have hle : digitCount (n * 5 ^ 1074) ≤ 743 := by omega
    have hn := (digitCount_le_iff (by decide)).mp hle
    have hmul : 1 * 5 ^ 1074 ≤ n * 5 ^ 1074 := Nat.mul_le_mul_right _ h0
    rw [Nat.one_mul] at hmul
    exact absurd (Nat.lt_of_le_of_lt (Nat.le_trans hlow hmul) hn) (Nat.lt_irrefl _)
  · rw [digitCount_le_iff (by decide)]
    exact Nat.lt_of_lt_of_le ((Nat.mul_lt_mul_right hpos).mpr h) hhigh

theorem ofScaled_exact (h0 : m.val ≠ 0) (h : m.val < infinite) :
    ofScaled (units m.val * 5 ^ 1074) (-1074) = m := by
  have hpos := units_pos (Nat.pos_of_ne_zero h0)
  obtain ⟨hlow, hhigh⟩ := digitCount_exact hpos (units_lt h)
  have hne : units m.val * 5 ^ 1074 ≠ 0 :=
    Nat.ne_of_gt (Nat.mul_pos hpos (Nat.pow_pos (by decide)))
  have hunits : ofUnits (units m.val * 5 ^ 1074 * 10 ^ (-1074 : Int).toNat * 2 ^ 1074)
      (10 ^ (-(-1074 : Int)).toNat) = ofUnits (units m.val) 1 := by
    refine ofUnits_congr (Nat.pow_pos (by decide)) (by decide) ?_
    have hten : (10 : Nat) ^ (-(-1074 : Int)).toNat = 5 ^ 1074 * 2 ^ 1074 := by
      rw [← Nat.mul_pow]
      rfl
    rw [hten, show (-1074 : Int).toNat = 0 from rfl, Nat.pow_zero, Nat.mul_one, Nat.mul_one,
      Nat.mul_assoc]
  unfold ofScaled
  dsimp only
  rw [if_neg (by simp only [hne, decide_false, Bool.false_or, decide_eq_true_eq]; omega),
    if_neg (by omega), hunits]
  exact Fin.ext (ofUnits_units h)

/-! ### Zeros taken from the end -/

theorem withoutZeros_eq (fuel : Nat) {digits : Nat} (h : 0 < digits) (e : Int) :
    0 < (withoutZeros fuel digits e).1 ∧
      ofScaled (withoutZeros fuel digits e).1 (withoutZeros fuel digits e).2 =
        ofScaled digits e := by
  induction fuel generalizing digits e with
  | zero => exact ⟨h, rfl⟩
  | succ fuel ih =>
    rw [withoutZeros]
    split
    · rename_i hzero
      have hpos : 0 < digits / 10 := by omega
      obtain ⟨h1, h2⟩ := ih hpos (e + 1)
      refine ⟨h1, h2.trans ?_⟩
      have hmul : digits = digits / 10 * 10 ^ 1 := by omega
      have hexp : e = e + 1 - (1 : Nat) := by omega
      have hsame := ofScaled_mul_pow hpos 1 (e + 1)
      rw [← hmul, ← hexp] at hsame
      exact hsame.symm
    · exact ⟨h, rfl⟩

theorem ofScaled_of_found? {p : Nat × Int} (h : found? m = some p) : ofScaled p.1 p.2 = m := by
  obtain ⟨n, -, hn⟩ := List.exists_of_findSome?_eq_some h
  obtain ⟨digits, hdigits, rfl⟩ := Option.map_eq_some_iff.mp hn
  exact ofScaled_of_onGrid? hdigits

theorem pos_of_ofScaled (h0 : m.val ≠ 0) {digits : Nat} {e : Int} (h : ofScaled digits e = m) :
    0 < digits := by
  refine Nat.pos_of_ne_zero ?_
  rintro rfl
  have hzero := ofScaled_zero e
  rw [h] at hzero
  exact h0 hzero

/-- The shortest decimal is read back. -/
theorem ofScaled_shortest (h0 : m.val ≠ 0) (h : m.val < infinite) :
    0 < (shortest m).1 ∧ ofScaled (shortest m).1 (shortest m).2 = m := by
  have hdecimal (p : Nat × Int) (hp : ofScaled p.1 p.2 = m) :
      0 < (withoutZeros (digitCount p.1) p.1 p.2).1 ∧
        ofScaled (withoutZeros (digitCount p.1) p.1 p.2).1
          (withoutZeros (digitCount p.1) p.1 p.2).2 = m := by
    obtain ⟨h1, h2⟩ := withoutZeros_eq (digitCount p.1) (pos_of_ofScaled h0 hp) p.2
    exact ⟨h1, h2.trans hp⟩
  refine hdecimal _ ?_
  cases hfound : found? m with
  | none => exact ofScaled_exact h0 h
  | some p => exact ofScaled_of_found? hfound

end Growth.Binary64
