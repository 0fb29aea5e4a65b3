import Growth.Binary64.Basic

/-! Rounding depends on a number alone and not on how the number is given: numerator and denominator
may have a common factor, and digits may end in zeros that the exponent counts too. A magnitude is
rounded to itself. -/

namespace Growth.Binary64

theorem nearest_mul {k : Nat} (hk : 0 < k) (n d : Nat) : nearest (k * n) (k * d) = nearest n d := by
  have hlt (a b : Nat) : k * a < k * b ↔ a < b := Nat.mul_lt_mul_left hk
  have hr : 2 * (k * (n % d)) = k * (2 * (n % d)) := Nat.mul_left_comm 2 k _
  unfold nearest
  rw [Nat.mul_div_mul_left n d hk, Nat.mul_mod_mul_left]
  simp only [hr, hlt]

theorem ofUnits_mul {k : Nat} (hk : 0 < k) (n d : Nat) : ofUnits (k * n) (k * d) = ofUnits n d := by
  unfold ofUnits
  rw [Nat.mul_div_mul_left n d hk]
  simp only [Nat.mul_assoc, nearest_mul hk]

/-- Equal numbers are rounded to the same magnitude. -/
theorem ofUnits_congr {n d n' d' : Nat} (hd : 0 < d) (hd' : 0 < d') (h : n * d' = n' * d) :
    ofUnits n d = ofUnits n' d' := by
  rw [← ofUnits_mul hd' n d, ← ofUnits_mul hd n' d', Nat.mul_comm d' n, h, Nat.mul_comm d d',
    Nat.mul_comm n' d]

/-! ### Zeros at the end of the digits -/

theorem digitCount_mul_ten {n : Nat} (hn : 0 < n) : digitCount (n * 10) = digitCount n + 1 := by
  have h := Nat.toDigits_append_toDigits (b := 10) (d := 0) (by decide) hn (by decide)
  rw [digitCount, Nat.mul_comm, ← Nat.add_zero (10 * n), ← h, List.length_append, digitCount,
    Nat.toDigits_zero, List.length_singleton]

theorem digitCount_mul_pow {n : Nat} (hn : 0 < n) (k : Nat) :
    digitCount (n * 10 ^ k) = digitCount n + k := by
  induction k with
  | zero => simp
  | succ k ih =>
    rw [Nat.pow_succ, ← Nat.mul_assoc, digitCount_mul_ten (Nat.mul_pos hn (Nat.pow_pos (by decide))),
      ih, Nat.add_assoc]

/-- Ten to an exponent is a whole number over another. -/
theorem ten_pow_toNat (e : Int) (k : Nat) :
    10 ^ k * 10 ^ (e - k).toNat * 10 ^ (-e).toNat = 10 ^ e.toNat * 10 ^ (-(e - k)).toNat := by
  rw [← Nat.pow_add, ← Nat.pow_add, ← Nat.pow_add]
  congr 1
  omega

/-- Zeros at the end of the digits count like an exponent. -/
theorem ofScaled_mul_pow {n : Nat} (hn : 0 < n) (k : Nat) (e : Int) :
    ofScaled (n * 10 ^ k) (e - k) = ofScaled n e := by
  have hpos : n * 10 ^ k ≠ 0 := Nat.ne_of_gt (Nat.mul_pos hn (Nat.pow_pos (by decide)))
  have hsize : ((digitCount n + k : Nat) : Int) + (e - k) = digitCount n + e := by omega
  unfold ofScaled
  generalize 2 ^ 1074 = u
  simp only [digitCount_mul_pow hn, hsize, hpos, Nat.ne_of_gt hn]
  split
  · rfl
  split
  · rfl
  · refine ofUnits_congr (Nat.pow_pos (by decide)) (Nat.pow_pos (by decide)) ?_
    calc n * 10 ^ k * 10 ^ (e - k).toNat * u * 10 ^ (-e).toNat
        = n * u * (10 ^ k * 10 ^ (e - k).toNat * 10 ^ (-e).toNat) := by ac_rfl
      _ = n * u * (10 ^ e.toNat * 10 ^ (-(e - k)).toNat) := by rw [ten_pow_toNat]
      _ = n * 10 ^ e.toNat * u * 10 ^ (-(e - k)).toNat := by ac_rfl

theorem ofScaled_zero (e : Int) : (ofScaled 0 e).val = 0 := by
  simp [ofScaled, magnitude]

/-! ### Magnitudes -/

theorem nearest_mul_self {d : Nat} (hd : 0 < d) (n : Nat) : nearest (n * d) d = n := by
  unfold nearest
  rw [Nat.mul_div_cancel n hd, Nat.mul_mod_left]
  simp [hd]

/-- A magnitude that has few digits is rounded to itself. -/
theorem ofUnits_of_log2 {s shift : Nat} (hs : s < 2 ^ 53) (hlow : shift = 0 ∨ 2 ^ 52 ≤ s) :
    ofUnits (s * 2 ^ shift) 1 = magnitude (shift * 2 ^ 52 + s) := by
  have hlog : (s * 2 ^ shift / 1).log2 - 52 = shift := by
    rw [Nat.div_one]
    rcases hlow with rfl | hlow
    · have : s.log2 ≤ 52 := by
        by_cases h0 : s = 0
        · simp [h0]
        · exact Nat.lt_succ_iff.mp ((Nat.log2_lt h0).mpr hs)
      simp only [Nat.pow_zero, Nat.mul_one]
      omega
    · have hlog : (s * 2 ^ shift).log2 = 52 + shift := by
        have hpow : 0 < 2 ^ shift := Nat.pow_pos (by decide)
        rw [Nat.log2_eq_iff (Nat.ne_of_gt (Nat.mul_pos (by omega) hpow))]
        refine ⟨?_, ?_⟩
        · rw [Nat.pow_add]
          exact Nat.mul_le_mul_right _ hlow
        · rw [Nat.add_right_comm, Nat.pow_add]
          exact (Nat.mul_lt_mul_right hpow).mpr hs
      omega
  unfold ofUnits
  simp only [hlog]
  rw [Nat.one_mul, nearest_mul_self (Nat.pow_pos (by decide))]

/-- A finite magnitude is rounded to itself. -/
theorem ofUnits_units {c : Nat} (h : c < infinite) : (ofUnits (units c) 1).val = c := by
  have hc : ofUnits (units c) 1 = magnitude c := by
    have hshift : (c / 2 ^ 52 - 1) * 2 ^ 52 + (c - (c / 2 ^ 52 - 1) * 2 ^ 52) = c := by omega
    rw [units, ofUnits_of_log2 (by omega) (by omega), hshift]
  rw [hc]
  exact Nat.min_eq_left (Nat.le_of_lt h)

end Growth.Binary64
