import Mathlib
import Growth.Proofs.Rendition.Characters

/-! Where words begin and end, and which of them are keywords, does not depend on the case of
letters: a text in lower case is cut into the pieces of the text, each of them in lower case. -/

namespace Growth.Pseudo

/-! ### Letters in lower case -/

section Characters

variable {c : Char}

theorem toLower_of_not_isAlpha (h : c.isAlpha = false) : c.toLower = c := by
  rw [Char.isAlpha, Bool.or_eq_false_iff] at h
  exact Char.toLower_eq_of_not_isUpper (Bool.eq_false_iff.mp h.1)

/-- A test that no letter passes does not depend on the case of letters. -/
theorem apply_toLower (p : Char → Bool) (hp : ∀ d : Char, d.isAlpha = true → p d = false)
    (c : Char) : p c.toLower = p c := by
  cases hc : c.isAlpha with
  | false => rw [toLower_of_not_isAlpha hc]
  | true => rw [hp c hc, hp c.toLower ((Char.isAlpha_toLower_eq_isAlpha c).trans hc)]

theorem isDigit_of_isAlpha (h : c.isAlpha = true) : c.isDigit = false := by
  simp [Char.isAlpha, Char.isUpper, Char.isLower, Char.isDigit, UInt32.le_iff_toNat_le] at h ⊢
  omega

@[simp] theorem isDigit_toLower (c : Char) : c.toLower.isDigit = c.isDigit :=
  apply_toLower Char.isDigit (fun _ => isDigit_of_isAlpha) c

@[simp] theorem toLower_beq {d : Char} (hd : d.isAlpha = false) (c : Char) :
    (c.toLower == d) = (c == d) := by
  refine apply_toLower (· == d) (fun e he => ?_) c
  rw [beq_eq_false_iff_ne]
  rintro rfl
  exact Bool.eq_false_iff.mp hd he

@[simp] theorem startsName_toLower (c : Char) : startsName c.toLower = startsName c := by
  rw [startsName, startsName, Char.isAlpha_toLower_eq_isAlpha, toLower_beq (by decide)]

@[simp] theorem continuesName_toLower (c : Char) : continuesName c.toLower = continuesName c := by
  rw [continuesName, continuesName, Char.isAlphanum, Char.isAlphanum,
    Char.isAlpha_toLower_eq_isAlpha, isDigit_toLower, toLower_beq (by decide)]

@[simp] theorem isBlank_toLower (c : Char) : isBlank c.toLower = isBlank c := by
  refine apply_toLower isBlank (fun d hd => isBlank_of_isAlphanum (.inl ?_)) c
  rw [Char.isAlphanum, hd, Bool.true_or]

theorem step_toLower (p : Position) (c : Char) : p.step c.toLower = p.step c := by
  have hline := toLower_beq (d := '\n') (by decide) c
  simp only [Position.step]
  rw [Bool.eq_iff_iff, beq_iff_eq, beq_iff_eq] at hline
  simp only [hline]

theorem after_map_toLower (p : Position) (cs : List Char) :
    p.after (cs.map Char.toLower) = p.after cs := by
  rw [Position.after, List.foldl_map]
  simp only [step_toLower]
  rfl

end Characters

/-! ### Words in lower case -/

/-- The text with its ASCII letters in lower case. -/
def lowerCase (text : String) : String :=
  String.ofList (text.toList.map Char.toLower)

theorem keyword?_lowerCase (w : String) : Kind.keyword? (lowerCase w) = Kind.keyword? w := by
  simp [Kind.keyword?, lowerCase, Function.comp_def]

theorem isAlpha_of_mem_signs {sign : Char × List Char × Kind} (h : sign ∈ signs) :
    ∀ c ∈ sign.1 :: sign.2.1, c.isAlpha = false := by
  have hall : ∀ sign ∈ signs, ∀ c ∈ sign.1 :: sign.2.1, c.isAlpha = false := by
    simp [signs]
  exact hall sign h

theorem isPrefixOf_map_toLower {more : List Char} (hmore : ∀ c ∈ more, c.isAlpha = false)
    (cs : List Char) : more.isPrefixOf (cs.map Char.toLower) = more.isPrefixOf cs := by
  induction more generalizing cs with
  | nil => simp
  | cons d more ih =>
    obtain ⟨hd, hmore⟩ := List.forall_mem_cons.mp hmore
    cases cs with
    | nil => rfl
    | cons c cs =>
      have hhead : (d == c.toLower) = (d == c) := by
        rw [BEq.comm, toLower_beq hd, BEq.comm]
      rw [List.map_cons, List.isPrefixOf, List.isPrefixOf, hhead, ih hmore]

/-- The word that begins in a text in lower case is the one that begins in the text. -/
theorem word?_map_toLower (operand : Bool) (c : Char) (cs : List Char) :
    word? operand c.toLower (cs.map Char.toLower) =
      (word? operand c cs).map (Prod.map id (List.map Char.toLower)) := by
  have hhead : (cs.map Char.toLower).head?.any Char.isDigit = cs.head?.any Char.isDigit := by
    cases cs <;> simp
  have hname : Kind.keyword? (String.ofList
        (c.toLower :: (cs.takeWhile continuesName).map Char.toLower)) =
      Kind.keyword? (String.ofList (c :: cs.takeWhile continuesName)) := by
    rw [← keyword?_lowerCase (String.ofList (c :: _)), lowerCase, String.toList_ofList,
      List.map_cons]
  have hsigns : (signs.find? fun s => s.1 == c.toLower && s.2.1.isPrefixOf (cs.map Char.toLower)) =
      signs.find? fun s => s.1 == c && s.2.1.isPrefixOf cs :=
    List.find?_congr fun sign hsign => by
      obtain ⟨hfirst, hmore⟩ := List.forall_mem_cons.mp (isAlpha_of_mem_signs hsign)
      rw [BEq.comm, toLower_beq hfirst, BEq.comm, isPrefixOf_map_toLower hmore]
  simp only [word?, hhead, hsigns, isDigit_toLower, startsName_toLower, List.takeWhile_map,
    Function.comp_def, continuesName_toLower, toLower_beq (by decide : '+'.isAlpha = false),
    toLower_beq (by decide : '-'.isAlpha = false), hname]
  split
  · rfl
  split
  · rfl
  -- a sign stays as it is
  cases hfind : signs.find? fun s => s.1 == c && s.2.1.isPrefixOf cs with
  | none => rfl
  | some sign =>
    obtain ⟨-, hmore⟩ :=
      List.forall_mem_cons.mp (isAlpha_of_mem_signs (List.mem_of_find?_eq_some hfind))
    have hlower : sign.2.1.map Char.toLower = sign.2.1 :=
      (List.map_congr_left fun d hd => toLower_of_not_isAlpha (hmore d hd)).trans (List.map_id _)
    simp [hlower]

/-- A piece in lower case. -/
def Piece.lowerCase : Piece → Piece
  | blank c => blank c.toLower
  | stray c => stray c.toLower
  | word k w => word k (Pseudo.lowerCase w)

theorem Piece.chars_lowerCase (piece : Piece) :
    piece.lowerCase.chars = piece.chars.map Char.toLower := by
  cases piece with
  | word => simp [Piece.lowerCase, Piece.chars, Pseudo.lowerCase]
  | blank | stray => rfl

/-- A text in lower case has the pieces of the text in lower case. -/
theorem pieces_map_toLower (operand : Bool) (cs : List Char) :
    pieces operand (cs.map Char.toLower) = (pieces operand cs).map Piece.lowerCase := by
  induction operand, cs using pieces.induct with
  | case1 operand =>
    rw [List.map_nil, pieces_nil]
    rfl
  | case2 operand c cs hblank ih =>
    have hblank' : isBlank c.toLower = true := (isBlank_toLower c).trans hblank
    rw [List.map_cons, pieces_blank hblank', pieces_blank hblank, ih, List.map_cons,
      Piece.lowerCase]
  | case3 operand c cs hblank hnone ih =>
    have hblank' : ¬isBlank c.toLower = true := by rwa [isBlank_toLower]
    have hnone' : word? operand c.toLower (cs.map Char.toLower) = none := by
      rw [word?_map_toLower, hnone]
      rfl
    rw [List.map_cons, pieces_stray hblank' hnone', pieces_stray hblank hnone, ih, List.map_cons,
      Piece.lowerCase]
  | case4 operand c cs hblank k more hword ih =>
    -- the word is as long, so the rest of the text begins at the same character
    have hblank' : ¬isBlank c.toLower = true := by rwa [isBlank_toLower]
    have hword' : word? operand c.toLower (cs.map Char.toLower) =
        some (k, more.map Char.toLower) := by
      rw [word?_map_toLower, hword]
      rfl
    rw [List.map_cons, pieces_word hblank' hword', pieces_word hblank hword, List.length_map,
      ← List.map_drop, ih, List.map_cons, Piece.lowerCase, lowerCase, String.toList_ofList,
      List.map_cons]

end Growth.Pseudo
