import Growth.Decimal
import Mathlib.Data.List.Induction
import Mathlib.Data.List.TakeDrop

/-! Decimals that are written out: digits, a point with more digits or without any, and an exponent
or none. Digits without a zero in front are those with which their number is written. -/

namespace Growth.Decimal

/-- The point and the places after it, if there is one. -/
def pointText : Option (List Char) → List Char
  | none => []
  | some places => '.' :: places

/-- The letter and the exponent, if there is one. -/
def exponentText : Option Int → List Char
  | none => []
  | some e => 'e' :: (toString e).toList

/-- All of the characters are digits. -/
def AllDigits (cs : List Char) : Prop :=
  ∀ c ∈ cs, c.isDigit = true

theorem allDigits_toDigits (n : Nat) : AllDigits (Nat.toDigits 10 n) :=
  fun _ h => Nat.isDigit_of_mem_toDigits (by decide) (by decide) h

theorem allDigits_zeros (k : Nat) : AllDigits (List.replicate k '0') := by
  intro c hc
  rw [List.eq_of_mem_replicate hc]
  decide

theorem AllDigits.append {cs cs' : List Char} (h : AllDigits cs) (h' : AllDigits cs') :
    AllDigits (cs ++ cs') :=
  List.forall_mem_append.mpr ⟨h, h'⟩

theorem ofDigits_eq (cs : List Char) : ofDigits cs = Nat.ofDigitChars 10 cs 0 :=
  Nat.ofDigitChars_eq_foldl.symm

@[simp] theorem ofDigits_toDigits (n : Nat) : ofDigits (Nat.toDigits 10 n) = n := by
  rw [ofDigits_eq, Nat.ofDigitChars_ten_toDigits]

theorem ofDigits_zeros_append (k : Nat) (cs : List Char) :
    ofDigits (List.replicate k '0' ++ cs) = ofDigits cs := by
  rw [ofDigits_eq, ofDigits_eq, Nat.ofDigitChars_append, Nat.ofDigitChars_replicate_zero,
    Nat.mul_zero]

theorem ofDigits_append_zeros (cs : List Char) (k : Nat) :
    ofDigits (cs ++ List.replicate k '0') = ofDigits cs * 10 ^ k := by
  rw [ofDigits_eq, ofDigits_eq, Nat.ofDigitChars_append, Nat.ofDigitChars_replicate_zero,
    Nat.mul_comm]

/-! ### Zeros in front -/

theorem digit_lt_ten {c : Char} (h : c.isDigit = true) : c.toNat - '0'.toNat < 10 := by
  simp only [Char.isDigit, Bool.and_eq_true, decide_eq_true_eq, ge_iff_le,
    UInt32.le_iff_toNat_le] at h
  have hhigh : c.toNat ≤ 57 := h.2
  change c.toNat - 48 < 10
  omega

theorem digitChar_of_isDigit {c : Char} (h : c.isDigit = true) :
    (c.toNat - '0'.toNat).digitChar = c := by
  have hlow : 48 ≤ c.toNat := by
    simp only [Char.isDigit, Bool.and_eq_true, decide_eq_true_eq, ge_iff_le,
      UInt32.le_iff_toNat_le] at h
    exact h.1
  have hzero : '0'.toNat = 48 := rfl
  rw [← Char.toNat_inj, Nat.toNat_digitChar_of_lt_ten (digit_lt_ten h)]
  omega

theorem ofDigits_concat (cs : List Char) (c : Char) :
    ofDigits (cs ++ [c]) = 10 * ofDigits cs + (c.toNat - '0'.toNat) :=
  List.foldl_append

theorem ofDigits_dropWhile (cs : List Char) : ofDigits (cs.dropWhile (· == '0')) = ofDigits cs := by
  induction cs with
  | nil => rfl
  | cons c cs ih =>
    rw [List.dropWhile_cons]
    split
    · rename_i hc
      rw [ih, eq_of_beq hc]
      rfl
    · rfl

/-- Only zero is written with a zero in front. -/
theorem pos_of_toDigits {n : Nat} {c : Char} {cs : List Char} (hc : c ≠ '0')
    (h : Nat.toDigits 10 n = c :: cs) : 0 < n := by
  refine Nat.pos_of_ne_zero fun hzero => hc ?_
  rw [hzero, Nat.toDigits_zero] at h
  exact (List.cons.inj h).1.symm

theorem toDigits_ofDigits {c : Char} {cs : List Char} (hc : c ≠ '0') (h : AllDigits (c :: cs)) :
    Nat.toDigits 10 (ofDigits (c :: cs)) = c :: cs := by
  -- on the digits from the last one backwards; what is in front of it is never zero
  induction cs using List.reverseRecOn with
  | nil =>
    have hdigit : c.isDigit = true := h c (.head _)
    have hvalue : ofDigits [c] = c.toNat - '0'.toNat := by
      rw [ofDigits, List.foldl_cons, List.foldl_nil, Nat.mul_zero, Nat.zero_add]
    rw [hvalue, Nat.toDigits_of_lt_base (digit_lt_ten hdigit), digitChar_of_isDigit hdigit]
  | append_singleton cs d ih =>
    rw [← List.cons_append] at h ⊢
    obtain ⟨hcs, hd⟩ := List.forall_mem_append.mp h
    have hdigit : d.isDigit = true := hd d (.head _)
    have hfront := ih hcs
    have hpos := pos_of_toDigits hc hfront
    rw [ofDigits_concat, ← Nat.toDigits_append_toDigits (by decide) hpos (digit_lt_ten hdigit),
      hfront, Nat.toDigits_of_lt_base (digit_lt_ten hdigit), digitChar_of_isDigit hdigit]

/-- Behind the zeros in front stand the digits with which the number is written, if it is not
zero. -/
theorem dropWhile_zeros {cs : List Char} (h : AllDigits cs) :
    cs.dropWhile (· == '0') = if ofDigits cs = 0 then [] else Nat.toDigits 10 (ofDigits cs) := by
  rw [← ofDigits_dropWhile]
  cases hdrop : cs.dropWhile (· == '0') with
  | nil => rfl
  | cons c significant =>
    have hhead := List.head_dropWhile_not (· == '0') (by rw [hdrop]; exact nofun)
    have hc : c ≠ '0' := by simpa [hdrop] using hhead
    have hsignificant : AllDigits (c :: significant) :=
      fun d hd => h d ((List.dropWhile_sublist _).subset (hdrop ▸ hd))
    have hdigits := toDigits_ofDigits hc hsignificant
    rw [if_neg (Nat.ne_of_gt (pos_of_toDigits hc hdigits)), hdigits]

/-! ### Whole numbers -/

theorem not_isDigit_sign {c : Char} (h : c.isDigit = true) : c ≠ '-' ∧ c ≠ '+' := by
  constructor
  all_goals
    rintro rfl
    exact absurd h (by decide)

/-- Digits have no sign in front. -/
theorem sign_of_digits {cs : List Char} (hne : cs ≠ []) (h : AllDigits cs) (rest : List Char) :
    sign (cs ++ rest) = (false, cs ++ rest) := by
  cases cs with
  | nil => exact absurd rfl hne
  | cons c cs =>
    obtain ⟨h1, h2⟩ := not_isDigit_sign (h c (.head _))
    rw [List.cons_append, sign]
    · rintro _ ⟨⟩
      exact h1 rfl
    · rintro _ ⟨⟩
      exact h2 rfl

/-- A whole number is a minus and digits, or digits alone. -/
theorem toString_toList (e : Int) :
    (toString e).toList = if 0 ≤ e then Nat.toDigits 10 e.toNat
      else '-' :: Nat.toDigits 10 (-e).toNat := by
  rw [Int.toString_eq_repr, Int.repr_eq_if]
  split <;> simp

theorem not_isEmpty_toDigits (n : Nat) : (Nat.toDigits 10 n).isEmpty = false := by
  simp

theorem all_isDigit_toDigits (n : Nat) : (Nat.toDigits 10 n).all Char.isDigit = true :=
  List.all_eq_true.mpr (allDigits_toDigits n)

theorem exponent?_exponentText (x : Option Int) : exponent? (exponentText x) = some (x.getD 0) := by
  cases x with
  | none => rfl
  | some e =>
    rw [exponentText, toString_toList, exponent?, if_pos (by decide)]
    by_cases he : 0 ≤ e
    · have hsign := sign_of_digits Nat.toDigits_ne_nil (allDigits_toDigits e.toNat) []
      rw [List.append_nil] at hsign
      rw [if_pos he]
      simp only [hsign, all_isDigit_toDigits, not_isEmpty_toDigits]
      simp
      omega
    · rw [if_neg he]
      simp only [sign, all_isDigit_toDigits, not_isEmpty_toDigits]
      simp
      omega

/-! ### Reading back -/

theorem span_digits {cs rest : List Char} (h : AllDigits cs)
    (hrest : ∀ c ∈ rest.head?, c.isDigit = false) : (cs ++ rest).span Char.isDigit = (cs, rest) := by
  have htake : rest.takeWhile Char.isDigit = [] ∧ rest.dropWhile Char.isDigit = rest := by
    cases rest with
    | nil => exact ⟨rfl, rfl⟩
    | cons c rest => simp [hrest c rfl]
  rw [List.span_eq_takeWhile_dropWhile, List.takeWhile_append_of_pos h,
    List.dropWhile_append_of_pos h, htake.1, htake.2, List.append_nil]

theorem head?_exponentText (x : Option Int) : ∀ c ∈ (exponentText x).head?, c = 'e' := by
  cases x <;> simp [exponentText]

/-- The digits before, among and after a point are the digits that are written. -/
theorem read?_written {whole : List Char} (hne : whole ≠ []) (hwhole : AllDigits whole)
    {point : Option (List Char)} (hpoint : ∀ places ∈ point, AllDigits places) (x : Option Int) :
    read? (whole ++ (pointText point ++ exponentText x)) =
      some ⟨false, ofDigits (whole ++ point.getD []), x.getD 0 - (point.getD []).length⟩ := by
  have hexponent : ∀ c ∈ (exponentText x).head?, c.isDigit = false := by
    intro c hc
    rw [head?_exponentText x c hc]
    decide
  have hspan : (whole ++ (pointText point ++ exponentText x)).span Char.isDigit =
      (whole, pointText point ++ exponentText x) := by
    refine span_digits hwhole ?_
    cases point with
    | none => exact hexponent
    | some places =>
      rintro c ⟨⟩
      decide
  have hplaces : places (pointText point ++ exponentText x) = (point.getD [], exponentText x) := by
    cases point with
    | none =>
      cases x with
      | none => rfl
      | some e =>
        rw [pointText, List.nil_append, exponentText, places]
        · rfl
        · rintro _ ⟨⟩
    | some ps => exact span_digits (hpoint ps rfl) hexponent
  have hempty : (whole ++ point.getD []).isEmpty = false := by
    cases whole with
    | nil => exact absurd rfl hne
    | cons c whole => rfl
  unfold read?
  rw [sign_of_digits hne hwhole]
  simp only [hspan, hplaces, hempty, exponent?_exponentText]
  rfl

theorem negative_of_read? {cs : List Char} {d : Decimal} (h : read? cs = some d) :
    d.negative = (sign cs).1 := by
  unfold read? at h
  dsimp only at h
  split at h
  · exact nomatch h
  · obtain ⟨e, -, rfl⟩ := Option.map_eq_some_iff.mp h
    rfl

end Growth.Decimal
