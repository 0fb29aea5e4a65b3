import Growth.Proofs.Binary64.Shortest
import Growth.Proofs.Decimal

/-! The text of a finite magnitude is a decimal that is read back as that magnitude. -/

namespace Growth.Binary64

open Decimal

/-- The text `cs` is digits, a point or an exponent or both, and a decimal that is rounded as
`digits · 10 ^ exponent` is. -/
structure Written (cs : List Char) (digits : Nat) (exponent : Int) (whole : List Char)
    (point : Option (List Char)) (x : Option Int) : Prop where
  whole_ne : whole ≠ []
  whole_digits : AllDigits whole
  point_digits : ∀ places ∈ point, AllDigits places
  fractional : point ≠ none ∨ x ≠ none
  text : cs = whole ++ (pointText point ++ exponentText x)
  value : ofScaled (ofDigits (whole ++ point.getD [])) (x.getD 0 - (point.getD []).length) =
    ofScaled digits exponent

variable {n : Nat} {e : Int}

theorem written_small (h : (Nat.toDigits 10 n).length + e ≤ 0) :
    Written (['0', '.'] ++ List.replicate (-((Nat.toDigits 10 n).length + e)).toNat '0' ++
      Nat.toDigits 10 n) n e ['0']
      (some (List.replicate (-((Nat.toDigits 10 n).length + e)).toNat '0' ++ Nat.toDigits 10 n))
      none := by
  refine ⟨by simp, by simp [AllDigits], ?_, .inl nofun, by simp [pointText, exponentText], ?_⟩
  · rintro places ⟨⟩
    exact AllDigits.append (allDigits_zeros _) (allDigits_toDigits n)
  · have hzeros : ∀ k cs, ofDigits (['0'] ++ (List.replicate k '0' ++ cs)) = ofDigits cs := by
      intro k cs
      exact (ofDigits_zeros_append 1 _).trans (ofDigits_zeros_append k cs)
    simp only [Option.getD_some, Option.getD_none, hzeros, ofDigits_toDigits, List.length_append,
      List.length_replicate]
    congr 1
    omega

theorem written_whole (hn : 0 < n) {p : Nat} (hp : (Nat.toDigits 10 n).length + e = p)
    (h : (Nat.toDigits 10 n).length ≤ p) :
    Written (Nat.toDigits 10 n ++ List.replicate (p - (Nat.toDigits 10 n).length) '0' ++ ['.', '0'])
      n e (Nat.toDigits 10 n ++ List.replicate (p - (Nat.toDigits 10 n).length) '0')
      (some ['0']) none := by
  refine ⟨by simp, AllDigits.append (allDigits_toDigits n) (allDigits_zeros _), ?_, .inl nofun,
    by simp [pointText, exponentText], ?_⟩
  · rintro places ⟨⟩
    exact allDigits_zeros 1
  · have hdigits : ofDigits (Nat.toDigits 10 n ++
        List.replicate (p - (Nat.toDigits 10 n).length) '0' ++ ['0']) =
          n * 10 ^ (p - (Nat.toDigits 10 n).length + 1) := by
      rw [List.append_assoc, ← List.replicate_succ', ofDigits_append_zeros, ofDigits_toDigits]
    rw [Option.getD_some, hdigits, ← ofScaled_mul_pow hn (p - (Nat.toDigits 10 n).length + 1) e]
    congr 1
    simp
    omega

theorem written_among {p : Nat} (hp : (Nat.toDigits 10 n).length + e = p)
    (hpos : 0 < p) (h : p < (Nat.toDigits 10 n).length) :
    Written ((Nat.toDigits 10 n).take p ++ '.' :: (Nat.toDigits 10 n).drop p) n e
      ((Nat.toDigits 10 n).take p) (some ((Nat.toDigits 10 n).drop p)) none := by
  refine ⟨?_, fun c hc => allDigits_toDigits n c (List.mem_of_mem_take hc), ?_, .inl nofun,
    by simp [pointText, exponentText], ?_⟩
  · intro hnil
    have hlength := congrArg List.length hnil
    simp only [List.length_take, List.length_nil] at hlength
    omega
  · rintro places ⟨⟩
    exact fun c hc => allDigits_toDigits n c (List.mem_of_mem_drop hc)
  · simp only [Option.getD_some, Option.getD_none, List.take_append_drop, ofDigits_toDigits,
      List.length_drop]
    congr 1
    omega

theorem written_exponent {point : Option (List Char)}
    (h : Nat.toDigits 10 n = (Nat.toDigits 10 n).take 1 ++ point.getD []) {k : Int}
    (hk : k = (Nat.toDigits 10 n).length + e - 1) :
    Written ((Nat.toDigits 10 n).take 1 ++ (pointText point ++ exponentText (some k))) n e
      ((Nat.toDigits 10 n).take 1) point (some k) := by
  have hlength := congrArg List.length h
  have hpos : 0 < (Nat.toDigits 10 n).length := Nat.length_toDigits_pos
  rw [List.length_append, List.length_take] at hlength
  refine ⟨?_, fun c hc => allDigits_toDigits n c (List.mem_of_mem_take hc), ?_, .inr nofun, rfl, ?_⟩
  · intro hnil
    have := congrArg List.length hnil
    simp only [List.length_take, List.length_nil] at this
    omega
  · rintro places ⟨⟩ c hc
    exact allDigits_toDigits n c (h ▸ List.mem_append_right _ hc)
  · rw [← h, ofDigits_toDigits, Option.getD_some]
    congr 1
    omega

/-- A decimal is written as one that is rounded like it. -/
theorem decimalText_written (hn : 0 < n) (e : Int) :
    ∃ whole point x, Written (decimalText n e) n e whole point x := by
  unfold decimalText
  dsimp only
  split
  · rename_i hrange
    split
    · rename_i hsmall
      exact ⟨_, _, _, written_small hsmall⟩
    · rename_i hlarge
      obtain ⟨p, hp⟩ := Int.eq_ofNat_of_zero_le (Int.le_of_lt (Int.not_le.mp hlarge))
      rw [hp, Int.toNat_natCast]
      by_cases hlen : (Nat.toDigits 10 n).length ≤ p
      · rw [List.take_of_length_le hlen, List.drop_of_length_le hlen]
        exact ⟨_, _, _, written_whole hn hp hlen⟩
      · have hzeros : p - (Nat.toDigits 10 n).length = 0 := by omega
        have hplaces : ((Nat.toDigits 10 n).drop p).isEmpty = false := by
          simp only [List.isEmpty_eq_false_iff, ne_eq, List.drop_eq_nil_iff]
          omega
        rw [hzeros, List.replicate_zero, List.append_nil, hplaces]
        exact ⟨_, _, _, written_among hp (by omega) (by omega)⟩
  · by_cases hplaces : (Nat.toDigits 10 n).drop 1 = []
    · have htake : Nat.toDigits 10 n = (Nat.toDigits 10 n).take 1 ++
          (none : Option (List Char)).getD [] := by
        conv_lhs => rw [← List.take_append_drop 1 (Nat.toDigits 10 n), hplaces]
        rfl
      rw [hplaces, List.append_assoc]
      exact ⟨_, _, _, written_exponent htake rfl⟩
    · have htake : Nat.toDigits 10 n = (Nat.toDigits 10 n).take 1 ++
          (some ((Nat.toDigits 10 n).drop 1)).getD [] :=
        (List.take_append_drop 1 _).symm
      have hempty : ((Nat.toDigits 10 n).drop 1).isEmpty = false := by
        simpa using hplaces
      rw [hempty, List.append_assoc]
      exact ⟨_, _, _, written_exponent htake rfl⟩

end Growth.Binary64
