import Growth.Proofs.Code.DenotesLines
import Growth.Proofs.Code.FloatText
import Growth.Proofs.Pseudo.Pieces
import Growth.Proofs.Pseudo.Words
import Growth.Pseudo.Numeral

/-! How names and numbers are spelled in pseudocode, and what target code takes them for. A name of
pseudocode may be a keyword of target code. -/

namespace Growth

namespace Pseudo

open Decimal

/-- A name in pseudocode: a letter or an underscore with more of them and digits behind it, all
together no keyword. -/
structure IsName (n : String) : Prop where
  chars : ∃ c cs, n.toList = c :: cs ∧ startsName c = true ∧ ∀ d ∈ cs, continuesName d = true
  notKeyword : Kind.keyword? n = none

/-- A number in pseudocode: digits, with a sign or without. -/
def IsNumber (lexeme : String) : Prop :=
  ∃ sign digits, lexeme.toList = sign ++ digits ∧ sign ∈ [[], ['+'], ['-']] ∧ digits ≠ [] ∧
    AllDigits digits

/-- A name or a number is spelled as one. -/
def Spelled : Word → Prop
  | (.name, n) => IsName n
  | (.number, lexeme) => IsNumber lexeme
  | _ => True

theorem spelled_of_ne {k : Kind} {lexeme : String} (hname : k ≠ .name) (hnumber : k ≠ .number) :
    Spelled (k, lexeme) := by
  cases k with
  | name => exact absurd rfl hname
  | number => exact absurd rfl hnumber
  | _ => trivial

/-! ### Words of a text -/

theorem Kind.of_keyword? {word : String} {k : Kind} (h : Kind.keyword? word = some k) :
    k ≠ .name ∧ k ≠ .number := by
  obtain ⟨before, after, heq, -⟩ := List.lookup_eq_some_iff.mp h
  have hall : ∀ entry ∈ Kind.keywords, entry.2 ≠ .name ∧ entry.2 ≠ .number := by decide
  exact hall _ (heq ▸ List.mem_append_right before (List.mem_cons_self ..))

theorem allDigits_takeWhile (cs : List Char) : AllDigits (cs.takeWhile Char.isDigit) :=
  fun _ hc => List.mem_takeWhile_imp hc

/-- What a word begins with decides how it goes on. -/
theorem spelled_of_word? {operand : Bool} {c : Char} {cs more : List Char} {k : Kind}
    (h : word? operand c cs = some (k, more)) : Spelled (k, String.ofList (c :: more)) := by
  cases word?_eq_some_iff.mp h with
  | number hnumber =>
    rw [beginsNumber, Bool.or_eq_true] at hnumber
    rcases hnumber with hdigit | hsign
    · refine ⟨[], c :: cs.takeWhile Char.isDigit, by simp, by simp, nofun, ?_⟩
      exact List.forall_mem_cons.mpr ⟨hdigit, allDigits_takeWhile cs⟩
    · simp only [Bool.and_eq_true, Bool.or_eq_true, beq_iff_eq] at hsign
      obtain ⟨⟨-, hc⟩, hhead⟩ := hsign
      refine ⟨[c], cs.takeWhile Char.isDigit, by simp, by simpa using hc, ?_, allDigits_takeWhile cs⟩
      cases cs with
      | nil => exact nomatch hhead
      | cons d ds => simp_all
  | name _ hstarts =>
    cases hk : Kind.keyword? (String.ofList (c :: cs.takeWhile continuesName)) with
    | none =>
      exact ⟨⟨c, _, String.toList_ofList, hstarts, fun d hd => List.mem_takeWhile_imp hd⟩, hk⟩
    | some k =>
      obtain ⟨hname, hnumber⟩ := Kind.of_keyword? hk
      exact spelled_of_ne hname hnumber
  | sign _ _ hfind =>
    have hall : ∀ s ∈ signs, s.2.2 ≠ .name ∧ s.2.2 ≠ .number := by decide
    obtain ⟨hname, hnumber⟩ := hall _ (List.mem_of_find?_eq_some hfind)
    exact spelled_of_ne hname hnumber

theorem spelled_of_pieces {operand : Bool} {cs : List Char} {k : Kind} {lexeme : String}
    (h : Piece.word k lexeme ∈ pieces operand cs) : Spelled (k, lexeme) := by
  cases isPiece_of_mem h with
  | word _ hword => exact spelled_of_word? hword

theorem map_snd_located (p : Position) (ps : List Piece) : (located p ps).map Prod.snd = ps := by
  induction ps generalizing p with
  | nil => rfl
  | cons piece ps ih => rw [located, List.map_cons, ih]

/-- The words of a text are spelled as their kinds say. -/
theorem spelled_of_tokens {source : String} : ∀ w ∈ (tokens source).map Token.word, Spelled w := by
  rw [List.forall_mem_map]
  intro t ht
  obtain ⟨⟨p, piece⟩, hpiece, htoken⟩ := List.mem_filterMap.mp ht
  have hmem : piece ∈ pieces true source.toList := by
    rw [← map_snd_located .start (pieces true source.toList)]
    exact List.mem_map_of_mem hpiece
  split at htoken
  · rename_i heq
    cases heq
    cases htoken
    have hspelled := spelled_of_pieces hmem
    unfold Token.word
    dsimp only
    split
    · exact hspelled
    · rename_i hk
      rw [not_or] at hk
      exact spelled_of_ne hk.2 hk.1
  · exact nomatch htoken

/-! ### Names in target code -/

/-- The keywords of target code that pseudocode takes for names and that are no values. -/
def reserved : List String := ["elif", "while", "def", "pass", "break", "continue", "is"]

/-- The values of target code that pseudocode takes for names. -/
def constants : List String := ["True", "False", "None"]

open Code in
/-- The keywords of target code that pseudocode takes for names. -/
def borrowed : List (String × Keyword) :=
  [("elif", .elifKw), ("while", .whileKw), ("def", .defKw), ("pass", .passKw), ("break", .breakKw),
    ("continue", .continueKw), ("is", .isKw), ("True", .trueKw), ("False", .falseKw),
    ("None", .noneKw)]

namespace IsName

variable {n : String}

/-- A keyword of target code is a keyword of pseudocode too, or one of a few others. -/
theorem nameKind_cases (h : IsName n) :
    Code.nameKind n = .identifier n ∨ ∃ k, Code.nameKind n = .keyword k ∧ (n, k) ∈ borrowed := by
  unfold Code.nameKind
  split
  · rename_i k hk
    obtain ⟨before, after, heq, -⟩ := List.lookup_eq_some_iff.mp hk
    have hmem : (n, k) ∈ Code.Keyword.table := heq ▸ List.mem_append_right before (.head _)
    have hall : ∀ entry ∈ Code.Keyword.table, Kind.keyword? entry.1 = none → entry ∈ borrowed := by
      decide
    exact .inr ⟨k, rfl, hall _ hmem h.notKeyword⟩
  · exact .inl rfl

theorem nameKind_eq (h : IsName n) (hr : n ∉ reserved) (hc : n ∉ constants) :
    Code.nameKind n = .identifier n := by
  refine h.nameKind_cases.resolve_right ?_
  rintro ⟨k, -, hk⟩
  have hall : ∀ entry ∈ borrowed, entry.1 ∈ reserved ∨ entry.1 ∈ constants := by decide
  exact (hall _ hk).elim hr hc

/-- A name stands in target code as the word that it is there. -/
theorem spells (h : IsName n) : Code.Spells n.toList (Code.nameKind n) := by
  obtain ⟨c, cs, hcs, hc, hmore⟩ := h.chars
  have hstarts : Code.startsName c = true := by
    simp only [startsName, Bool.or_eq_true, beq_iff_eq] at hc
    rcases hc with hc | rfl
    · simp [Code.startsName, Text.isLetter, hc]
    · decide
  have hcontinues : ∀ d ∈ cs, Code.continuesName d = true := by
    intro d hd
    have hd := hmore d hd
    simp only [continuesName, Char.isAlphanum, Bool.or_eq_true, beq_iff_eq] at hd
    rcases hd with (hd | hd) | rfl
    · simp [Code.continuesName, Text.isLetterOrNumber, Text.isLetter, hd]
    · simp [Code.continuesName, Text.isLetterOrNumber, hd]
    · decide
  have hword := Code.Spells.name hstarts hcontinues
  rwa [← hcs, String.ofList_toList] at hword

theorem opens (h : IsName n) : Code.Opens n.toList :=
  h.spells.opens

end IsName

theorem nameKind_of_reserved {n : String} (h : n ∈ reserved) :
    ∃ k, Code.nameKind n = .keyword k ∧ (n, k) ∈ borrowed ∧ (k.spoils = true ∨ k = .isKw) := by
  have hall : ∀ n ∈ reserved, ∃ entry ∈ borrowed, entry.1 = n ∧
      Code.nameKind n = .keyword entry.2 ∧ (entry.2.spoils = true ∨ entry.2 = .isKw) := by
    decide
  obtain ⟨⟨n, k⟩, hmem, rfl, hk, hspoils⟩ := hall n h
  exact ⟨k, hk, hmem, hspoils⟩

end Pseudo

namespace Code

/-- What a name of pseudocode is as an expression. -/
def Expression.ofName? (n : String) : Option Expression :=
  match nameKind n with
  | .identifier n => some (.name n)
  | .keyword .trueKw => some (.boolean true)
  | .keyword .falseKw => some (.boolean false)
  | .keyword .noneKw => some .none
  | _ => Option.none

/-- A whole number of pseudocode as an expression: a minus before it is an operator. -/
def Expression.ofNumeral : List Char → Expression
  | '-' :: digits => .unary .minus (.integer (String.ofList digits))
  | digits => .integer (String.ofList digits)

end Code

namespace Pseudo

open Code (Expression Denotes)
open Decimal

/-- A word that is a keyword of target code and no value. -/
def IsReserved (w : Word) : Prop :=
  w.1 = .name ∧ w.2 ∈ reserved

/-- A word that is a keyword of target code. -/
def IsBorrowed (w : Word) : Prop :=
  w.1 = .name ∧ (w.2 ∈ reserved ∨ w.2 ∈ constants)

@[simp] theorem isBorrowed_name (n : String) :
    IsBorrowed (.name, n) ↔ n ∈ reserved ∨ n ∈ constants := by
  simp [IsBorrowed]

@[simp] theorem isBorrowed_number (lexeme : String) : ¬IsBorrowed (.number, lexeme) := by
  simp [IsBorrowed]

@[simp] theorem isBorrowed_word (k : Kind) : ¬IsBorrowed k.word := by
  have hempty : "" ∉ reserved ∧ "" ∉ constants := by decide
  rintro ⟨-, h⟩
  exact h.elim hempty.1 hempty.2

theorem IsReserved.isBorrowed {w : Word} (h : IsReserved w) : IsBorrowed w :=
  ⟨h.1, .inl h.2⟩

@[simp] theorem isReserved_name (n : String) : IsReserved (.name, n) ↔ n ∈ reserved := by
  simp [IsReserved]

@[simp] theorem isReserved_number (lexeme : String) : ¬IsReserved (.number, lexeme) := by
  simp [IsReserved]

@[simp] theorem isReserved_word (k : Kind) : ¬IsReserved k.word := by
  have hempty : "" ∉ reserved := by decide
  exact fun h => hempty h.2

namespace IsName

variable {n : String}

theorem reads (h : IsName n) : Code.Reads .primary [Code.nameKind n] (Expression.ofName? n) := by
  unfold Expression.ofName?
  rcases h.nameKind_cases with hk | ⟨k, hk, hmem⟩
  · rw [hk]
    exact .name n
  · rw [hk]
    cases k with
    | trueKw => exact .boolean true
    | falseKw => exact .boolean false
    | noneKw => exact .noneLiteral
    | elifKw | whileKw | defKw | passKw | breakKw | continueKw | isKw =>
      exact .keyword (by decide)
    | _ => simp [borrowed] at hmem

theorem takesDot (h : IsName n) : (Code.nameKind n).takesDot = true := by
  rcases h.nameKind_cases with hk | ⟨k, hk, -⟩ <;> rw [hk] <;> rfl

theorem denotes (h : IsName n) : Denotes .primary true n.toList (Expression.ofName? n) := by
  have hread := Denotes.of_spells h.spells h.reads
  rwa [h.takesDot] at hread

theorem denotesName (h : IsName n) : Code.DenotesName n.toList (Code.nameKind n).name? := by
  refine ⟨_, h.spells, h.takesDot, ?_, rfl⟩
  rcases h.nameKind_cases with hk | ⟨k, hk, -⟩ <;> rw [hk] <;> exact nofun

theorem name?_eq_none_iff (h : IsName n) :
    (Code.nameKind n).name? = none ↔ n ∈ reserved ∨ n ∈ constants := by
  constructor
  · intro hn
    by_contra hfree
    rw [not_or] at hfree
    rw [h.nameKind_eq hfree.1 hfree.2] at hn
    exact nomatch hn
  · intro hmem
    rcases h.nameKind_cases with hk | ⟨k, hk, -⟩
    · have hall : ∀ n ∈ reserved ++ constants, (Code.nameKind n).name? = none := by decide +kernel
      exact hall n (List.mem_append.mpr hmem)
    · rw [hk]
      rfl

theorem eq_of_name? (h : IsName n) {n' : String} (hn : (Code.nameKind n).name? = some n') :
    n' = n := by
  rcases h.nameKind_cases with hk | ⟨k, hk, -⟩
  · rw [hk] at hn
    exact (Option.some.inj hn).symm
  · rw [hk] at hn
    exact nomatch hn

theorem ofName?_eq (h : IsName n) (hr : n ∉ reserved) (hc : n ∉ constants) :
    Expression.ofName? n = some (.name n) := by
  rw [Expression.ofName?, h.nameKind_eq hr hc]

/-- A name is a value exactly when it is no keyword that begins a statement or compares. -/
theorem ofName?_eq_none_iff (h : IsName n) : Expression.ofName? n = none ↔ n ∈ reserved := by
  have hreserved : ∀ entry ∈ borrowed, entry.1 ∈ reserved ↔
      entry.2 ∉ [Code.Keyword.trueKw, .falseKw, .noneKw] := by decide
  unfold Expression.ofName?
  rcases h.nameKind_cases with hk | ⟨k, hk, hmem⟩
  · rw [hk]
    refine ⟨nofun, fun hn => ?_⟩
    obtain ⟨k, hk', -⟩ := nameKind_of_reserved hn
    exact nomatch hk.symm.trans hk'
  · have hiff : n ∈ reserved ↔ k ∉ [Code.Keyword.trueKw, .falseKw, .noneKw] := hreserved _ hmem
    rw [hk, hiff]
    clear hk hiff hmem
    cases k <;> simp

end IsName

/-! ### Numbers in target code -/

/-- Digits that are no more than a zero, or begin with none. -/
structure IsWhole (digits : List Char) : Prop where
  nonempty : digits ≠ []
  allDigits : AllDigits digits
  noLeadingZero : Code.hasLeadingZero digits = false

theorem hasDoubleUnderscore_of_forall_ne {cs : List Char} (h : ∀ c ∈ cs, c ≠ '_') :
    Code.hasDoubleUnderscore cs = false := by
  induction cs using Code.hasDoubleUnderscore.induct with
  | case1 => exact absurd rfl (h '_' (.head _))
  | case2 c cs hne ih =>
    rw [Code.hasDoubleUnderscore]
    · exact ih fun c hc => h c (.tail _ hc)
    · exact hne
  | case3 => rfl

namespace IsWhole

variable {digits : List Char}

theorem ne_minus (h : IsWhole digits) : ∀ rest, digits ≠ '-' :: rest := by
  rintro rest rfl
  exact absurd (h.allDigits '-' (.head _)) (by decide)

theorem spells (h : IsWhole digits) : Code.Spells digits (.integer (String.ofList digits)) := by
  obtain ⟨hne, hdigits, hzero⟩ := h
  cases digits with
  | nil => exact absurd rfl hne
  | cons d ds =>
    have hd : d.isDigit = true := hdigits d (.head _)
    have hplain : ∀ c ∈ d :: ds, c ≠ '_' := fun c hc => Code.ne_underscore_of_isDigit (hdigits c hc)
    refine ⟨d, ds, rfl, Code.lexeme_of_number (Code.startsName_of_isDigit hd) (by simp [hd])
      (Code.numeral_digits_end hdigits false false) ?_⟩
    have hfilter : (d :: ds).filter (· != '_') = d :: ds := by simpa using hplain
    have hlast : (d :: ds).getLast? ≠ some '_' :=
      fun hlast => hplain '_' (List.mem_of_getLast? hlast) rfl
    have hdouble := hasDoubleUnderscore_of_forall_ne hplain
    unfold Code.numberKind?
    simp [hfilter, hlast, hdouble, hzero]

end IsWhole

theorem isWhole_zero : IsWhole ['0'] :=
  ⟨nofun, by simp [AllDigits], rfl⟩

/-- What is left of digits behind the zeros that they begin with. -/
theorem IsWhole.of_dropWhile {digits significant : List Char} {c : Char} (h : AllDigits digits)
    (hdrop : digits.dropWhile (· == '0') = c :: significant) : IsWhole (c :: significant) := by
  have hhead := List.head_dropWhile_not (· == '0') (by rw [hdrop]; exact nofun)
  have hc : c ≠ '0' := by simpa [hdrop] using hhead
  refine ⟨nofun, fun d hd => h d ?_, by simp [Code.hasLeadingZero, hc]⟩
  exact (List.dropWhile_sublist _).subset (hdrop ▸ hd)

/-- A number is written as a whole number. -/
theorem isWhole_toDigits (n : Nat) : IsWhole (Nat.toDigits 10 n) := by
  have hdrop := dropWhile_zeros (allDigits_toDigits n)
  rw [ofDigits_toDigits] at hdrop
  split at hdrop
  · rename_i hzero
    rw [hzero, Nat.toDigits_zero]
    exact isWhole_zero
  · cases hcs : Nat.toDigits 10 n with
    | nil => exact absurd hcs Nat.toDigits_ne_nil
    | cons c cs => exact .of_dropWhile (allDigits_toDigits n) (hdrop.trans hcs)

theorem unsigned_of_digits {sign digits : List Char} (hsign : sign ∈ [[], ['+'], ['-']])
    (hdigits : AllDigits digits) :
    Numeral.unsigned (sign ++ digits) = (decide (sign = ['-']), digits) := by
  simp only [List.mem_cons, List.not_mem_nil, or_false] at hsign
  rcases hsign with rfl | rfl | rfl
  · cases digits with
    | nil => rfl
    | cons d ds =>
      obtain ⟨hminus, hplus⟩ := not_isDigit_sign (hdigits d (.head _))
      rw [List.nil_append, Numeral.unsigned]
      · rfl
      · rintro _ ⟨⟩
        exact hminus rfl
      · rintro _ ⟨⟩
        exact hplus rfl
  · rfl
  · rfl

/-- The normal form of a number is a whole number, with a minus before it or without. -/
theorem IsNumber.normal {lexeme : String} (h : IsNumber lexeme) :
    ∃ digits, IsWhole digits ∧ (Numeral.normal lexeme.toList = digits ∨
      Numeral.normal lexeme.toList = '-' :: digits) := by
  obtain ⟨sign, digits, hlexeme, hsign, -, hdigits⟩ := h
  rw [Numeral.normal, hlexeme, unsigned_of_digits hsign hdigits]
  dsimp only
  split
  · exact ⟨['0'], isWhole_zero, .inl rfl⟩
  · rename_i significant hne
    cases hdrop : digits.dropWhile (· == '0') with
    | nil => exact absurd hdrop hne
    | cons c significant =>
      refine ⟨c :: significant, .of_dropWhile hdigits hdrop, ?_⟩
      split
      · exact .inr rfl
      · exact .inl rfl

end Pseudo

end Growth
