import Growth.Proofs.Rendition.Joined
import Mathlib.Data.List.Pairwise

/-! Characters that begin no word count as blanks. With spaces in their place a text has the same
words at the same places, and nothing in it is passed over any more. -/

namespace Growth

namespace Position

/-- One place comes before another. -/
def Before (p q : Position) : Prop :=
  p.line < q.line ∨ p.line = q.line ∧ p.column < q.column

theorem Before.trans {p q r : Position} (h : p.Before q) (h' : q.Before r) : p.Before r := by
  unfold Before at *
  omega

theorem Before.ne {p q : Position} (h : p.Before q) : p ≠ q := by
  rintro rfl
  unfold Before at h
  omega

theorem before_step (p : Position) (c : Char) : p.Before (p.step c) := by
  unfold Before step
  split
  · exact .inl (Nat.lt_succ_self p.line)
  · exact .inr ⟨rfl, Nat.lt_succ_self p.column⟩

end Position

namespace Pseudo

/-! ### Places of characters -/

/-- The characters of a text that begins at `p`, each with its place. -/
def placed (p : Position) : List Char → List (Position × Char)
  | [] => []
  | c :: cs => (p, c) :: placed (p.step c) cs

theorem placed_append (p : Position) (cs ds : List Char) :
    placed p (cs ++ ds) = placed p cs ++ placed (p.after cs) ds := by
  induction cs generalizing p with
  | nil => rfl
  | cons c cs ih => exact congrArg ((p, c) :: ·) (ih (p.step c))

theorem placed_flatMap (p : Position) (ps : List Piece) : placed p (ps.flatMap Piece.chars) =
    (located p ps).flatMap fun x => placed x.1 x.2.chars := by
  induction ps generalizing p with
  | nil => rfl
  | cons piece ps ih => rw [List.flatMap_cons, placed_append, ih, located, List.flatMap_cons]

theorem map_snd_placed (p : Position) (cs : List Char) : (placed p cs).map Prod.snd = cs := by
  induction cs generalizing p with
  | nil => rfl
  | cons c cs ih => exact congrArg (c :: ·) (ih (p.step c))

theorem le_of_mem_placed {p : Position} {cs : List Char} {x : Position × Char}
    (h : x ∈ placed p cs) : x.1 = p ∨ p.Before x.1 := by
  induction cs generalizing p with
  | nil => cases h
  | cons c cs ih =>
    rcases List.mem_cons.mp h with rfl | h
    · exact .inl rfl
    · rcases ih h with hx | hx
      · exact .inr (hx ▸ p.before_step c)
      · exact .inr ((p.before_step c).trans hx)

/-- No two characters of a text have the same place. -/
theorem pairwise_placed (p : Position) (cs : List Char) :
    (placed p cs).Pairwise fun x y => x.1 ≠ y.1 := by
  induction cs generalizing p with
  | nil => exact .nil
  | cons c cs ih =>
    refine List.pairwise_cons.mpr ⟨fun x hx => ?_, ih (p.step c)⟩
    rcases le_of_mem_placed hx with hx | hx
    · exact hx ▸ (p.before_step c).ne
    · exact ((p.before_step c).trans hx).ne

/-! ### Spaces for strays -/

/-- The places of the characters that begin no word. -/
def strayPlaces (source : String) : List Position :=
  (strays source).map Diagnostic.position

/-- The text with a space for each character that begins no word. -/
def cleared (source : String) : String :=
  String.ofList ((placed .start source.toList).map fun x =>
    if x.1 ∈ strayPlaces source then ' ' else x.2)

/-- A piece with a space for a character that begins no word. -/
def Piece.cleared : Piece → Piece
  | stray _ => blank ' '
  | piece => piece

theorem mem_strayPlaces_iff {source : String} {q : Position} :
    q ∈ strayPlaces source ↔ ∃ c, (q, .stray c) ∈ locatedPieces source := by
  unfold strayPlaces strays
  simp only [List.mem_map, List.mem_filterMap]
  constructor
  · rintro ⟨d, ⟨⟨p, piece⟩, hmem, hd⟩, rfl⟩
    cases piece with
    | stray c =>
      cases hd
      exact ⟨c, hmem⟩
    | _ => cases hd
  · rintro ⟨c, hmem⟩
    exact ⟨_, ⟨_, hmem, rfl⟩, rfl⟩

theorem placed_source (source : String) : placed .start source.toList =
    (locatedPieces source).flatMap fun x => placed x.1 x.2.chars := by
  rw [locatedPieces, ← placed_flatMap, chars_pieces]

/-- Characters with one place are in one piece. -/
theorem eq_of_mem_locatedPieces {source : String} {a b : Position × Piece}
    (ha : a ∈ locatedPieces source) (hb : b ∈ locatedPieces source) {x y : Position × Char}
    (hx : x ∈ placed a.1 a.2.chars) (hy : y ∈ placed b.1 b.2.chars) (hplace : x.1 = y.1) :
    a = b := by
  by_contra hne
  have hpairwise := pairwise_placed .start source.toList
  rw [placed_source, List.pairwise_flatMap] at hpairwise
  have : Std.Symm fun a b : Position × Piece =>
      ∀ y ∈ placed a.1 a.2.chars, ∀ z ∈ placed b.1 b.2.chars, y.1 ≠ z.1 :=
    ⟨fun a b h y hy z hz => (h z hz y hy).symm⟩
  exact hpairwise.2.forall ha hb hne x hx y hy hplace

/-- A character has the place of a stray only if it is that stray. -/
theorem eq_stray_of_mem {source : String} {q : Position} {piece : Piece} {x : Position × Char}
    (hpiece : (q, piece) ∈ locatedPieces source) (hx : x ∈ placed q piece.chars)
    (hplace : x.1 ∈ strayPlaces source) : ∃ c, piece = .stray c := by
  obtain ⟨c, hstray⟩ := mem_strayPlaces_iff.mp hplace
  have hsame := eq_of_mem_locatedPieces hpiece hstray hx (List.mem_singleton_self (x.1, c)) rfl
  exact ⟨c, congrArg Prod.snd hsame⟩

/-- The pieces of a cleared text, as far as its characters tell. -/
theorem toList_cleared (source : String) : (cleared source).toList =
    ((pieces true source.toList).map Piece.cleared).flatMap Piece.chars := by
  unfold cleared
  rw [String.toList_ofList, placed_source, List.map_flatMap,
    ← map_snd_located .start (pieces true source.toList), List.map_map, List.flatMap_map]
  refine List.flatMap_congr fun ⟨q, piece⟩ hpiece => ?_
  cases piece with
  | stray c =>
    have hplace : q ∈ strayPlaces source := mem_strayPlaces_iff.mpr ⟨c, hpiece⟩
    simp [placed, Piece.chars, Piece.cleared, hplace]
  | blank | word =>
    refine (List.map_congr_left fun x hx => if_neg fun hplace => ?_).trans (map_snd_placed q _)
    obtain ⟨c, hc⟩ := eq_stray_of_mem hpiece hx hplace
    cases hc

/-- The strays are the characters at their places, one by one and in order. -/
theorem strays_eq (source : String) : strays source =
    ((placed .start source.toList).filter fun x => x.1 ∈ strayPlaces source).map fun x =>
      ⟨.illegal x.2, x.1⟩ := by
  rw [placed_source, List.filter_flatMap, List.map_flatMap, strays, List.filterMap_eq_flatMap_toList]
  refine List.flatMap_congr fun ⟨q, piece⟩ hpiece => ?_
  cases piece with
  | stray c =>
    have hplace : q ∈ strayPlaces source := mem_strayPlaces_iff.mpr ⟨c, hpiece⟩
    simp [placed, Piece.chars, hplace]
  | blank | word =>
    refine (List.map_eq_nil_iff.mpr (List.filter_eq_nil_iff.mpr fun x hx hplace => ?_)).symm
    obtain ⟨c, hc⟩ := eq_stray_of_mem hpiece hx (of_decide_eq_true hplace)
    cases hc

/-! ### Pieces of a cleared text -/

/-- A character that no word has behind its first one. -/
structure IsInert (c : Char) : Prop where
  continuesName : continuesName c = false
  signs : ∀ sign ∈ signs, c ∉ sign.2.1

/-- A character, or a space in the place of an inert one. -/
inductive Cleared : Char → Char → Prop
  | same (c : Char) : Cleared c c
  | space {c : Char} (h : IsInert c) : Cleared c ' '

theorem isInert_space : IsInert ' ' :=
  ⟨by decide, by decide⟩

theorem IsInert.isDigit {c : Char} (h : IsInert c) : c.isDigit = false := by
  have hname := h.continuesName
  simp only [Pseudo.continuesName, Char.isAlphanum, Bool.or_eq_false_iff] at hname
  exact hname.1.2

/-- What a sign has behind its first character is a sign by itself. -/
theorem isInert_of_word? {operand : Bool} {c : Char} {cs : List Char}
    (h : word? operand c cs = none) : IsInert c := by
  unfold word? at h
  split at h
  · cases h
  rename_i hdigit
  split at h
  · cases h
  rename_i hname
  rw [Option.map_eq_none_iff, List.find?_eq_none] at h
  constructor
  · simp only [startsName, Bool.or_eq_true, not_or, Bool.not_eq_true] at hdigit hname
    simp [continuesName, Char.isAlphanum, hdigit.1, hname]
  · intro sign hsign hc
    have hall : ∀ sign ∈ signs, ∀ d ∈ sign.2.1, ∃ s ∈ signs, s.1 = d ∧ s.2.1 = [] := by
      simp [signs]
    obtain ⟨s, hs, rfl, hempty⟩ := hall sign hsign c hc
    exact h s hs (by simp [hempty])

section Cleared

variable {cs cs' : List Char}

theorem takeWhile_cleared {p : Char → Bool} (hp : ∀ c, IsInert c → p c = false)
    (h : List.Forall₂ Cleared cs cs') : cs'.takeWhile p = cs.takeWhile p := by
  induction h with
  | nil => rfl
  | cons hc _ ih =>
    cases hc with
    | same => rw [List.takeWhile_cons, List.takeWhile_cons, ih]
    | space hc => simp [hp _ isInert_space, hp _ hc]

theorem isPrefixOf_cleared {more : List Char} (hmore : ∀ c, IsInert c → c ∉ more)
    (h : List.Forall₂ Cleared cs cs') : more.isPrefixOf cs' = more.isPrefixOf cs := by
  induction h generalizing more with
  | nil => rfl
  | cons hc _ ih =>
    cases more with
    | nil => rfl
    | cons d more =>
      have hrest := ih fun c hc hmem => hmore c hc (List.mem_cons_of_mem d hmem)
      cases hc with
      | same => rw [List.isPrefixOf, List.isPrefixOf, hrest]
      | space hc =>
        have hne (c : Char) (hc : IsInert c) : (d == c) = false :=
          beq_false_of_ne fun heq => hmore c hc (heq ▸ List.mem_cons_self ..)
        rw [List.isPrefixOf, List.isPrefixOf, hne _ hc, hne _ isInert_space, Bool.false_and,
          Bool.false_and]

/-- A word does not go on into characters that begin none, whatever stands for them. -/
theorem word?_cleared (operand : Bool) (c : Char) (h : List.Forall₂ Cleared cs cs') :
    word? operand c cs' = word? operand c cs := by
  have hhead : cs'.head?.any Char.isDigit = cs.head?.any Char.isDigit := by
    cases h with
    | nil => rfl
    | cons hc =>
      cases hc with
      | same => rfl
      | space hc => exact isInert_space.isDigit.trans hc.isDigit.symm
  have hsigns : (signs.find? fun s => s.1 == c && s.2.1.isPrefixOf cs') =
      signs.find? fun s => s.1 == c && s.2.1.isPrefixOf cs :=
    List.find?_congr fun sign hsign => by
      rw [isPrefixOf_cleared (fun c hc => hc.signs sign hsign) h]
  rw [word?, word?, hhead, takeWhile_cleared (fun c hc => hc.isDigit) h,
    takeWhile_cleared (fun c hc => hc.continuesName) h, hsigns]

end Cleared

/-- The characters of pieces, with spaces in the place of strays. -/
def clearedChars (ps : List Piece) : List Char :=
  (ps.map Piece.cleared).flatMap Piece.chars

theorem clearedChars_word (k : Kind) (c : Char) (more : List Char) (ps : List Piece) :
    clearedChars (.word k (String.ofList (c :: more)) :: ps) = c :: (more ++ clearedChars ps) := by
  simp [clearedChars, Piece.cleared, Piece.chars]

theorem forall₂_cleared (operand : Bool) (cs : List Char) :
    List.Forall₂ Cleared cs (clearedChars (pieces operand cs)) := by
  induction operand, cs using pieces.induct with
  | case1 operand =>
    rw [pieces_nil]
    exact .nil
  | case2 operand c cs hblank ih =>
    rw [pieces_blank hblank]
    exact .cons (.same c) ih
  | case3 operand c cs hblank hnone ih =>
    rw [pieces_stray hblank hnone]
    exact .cons (.space (isInert_of_word? hnone)) ih
  | case4 operand c cs hblank k more hword ih =>
    obtain ⟨rest, rfl⟩ := prefix_of_word? hword
    rw [pieces_word hblank hword, clearedChars_word]
    rw [List.drop_left] at ih ⊢
    exact .cons (.same c) (List.rel_append (List.forall₂_same.mpr fun d _ => .same d) ih)

/-- The pieces of a cleared text are the cleared pieces of the text. -/
theorem pieces_cleared (operand : Bool) (cs : List Char) :
    pieces operand (clearedChars (pieces operand cs)) =
      (pieces operand cs).map Piece.cleared := by
  have hcleared := forall₂_cleared operand cs
  induction operand, cs using pieces.induct with
  | case1 operand => rw [pieces_nil, clearedChars, List.map_nil, List.flatMap_nil, pieces_nil]
  | case2 operand c cs hblank ih =>
    rw [pieces_blank hblank]
    exact (pieces_blank hblank).trans (congrArg _ (ih (forall₂_cleared operand cs)))
  | case3 operand c cs hblank hnone ih =>
    rw [pieces_stray hblank hnone]
    exact (pieces_blank (by decide)).trans (congrArg _ (ih (forall₂_cleared operand cs)))
  | case4 operand c cs hblank k more hword ih =>
    obtain ⟨rest, rfl⟩ := prefix_of_word? hword
    rw [pieces_word hblank hword, clearedChars_word] at hcleared ⊢
    rw [List.drop_left] at ih hcleared ⊢
    cases hcleared with
    | cons _ hmore =>
      rw [pieces_word hblank ((word?_cleared operand c hmore).trans hword), List.drop_left,
        ih (forall₂_cleared _ rest)]
      rfl

/-! ### Words of a cleared text -/

theorem isBlank_of_stray {operand : Bool} {cs : List Char} {c : Char}
    (h : .stray c ∈ pieces operand cs) : isBlank c = false := by
  cases isPiece_of_mem h with
  | stray hblank _ => exact Bool.eq_false_iff.mpr hblank

/-- Spaces in the place of strays move nothing. -/
theorem located_cleared {ps : List Piece} (hps : ∀ c, .stray c ∈ ps → c ≠ '\n') (p : Position) :
    located p (ps.map Piece.cleared) = (located p ps).map (Prod.map id Piece.cleared) := by
  induction ps generalizing p with
  | nil => rfl
  | cons piece ps ih =>
    have hafter : p.after piece.cleared.chars = p.after piece.chars := by
      cases piece with
      | stray c =>
        have hc : c ≠ '\n' := hps c (List.mem_cons_self ..)
        simp [Piece.cleared, Piece.chars, Position.after, Position.step, hc]
      | _ => rfl
    have ih := ih (fun c hc => hps c (List.mem_cons_of_mem piece hc)) (p.after piece.chars)
    rw [List.map_cons, located, hafter, ih]
    rfl

theorem locatedPieces_cleared (source : String) :
    locatedPieces (cleared source) = (locatedPieces source).map (Prod.map id Piece.cleared) := by
  have hstrays (c : Char) (hc : .stray c ∈ pieces true source.toList) : c ≠ '\n' := by
    rintro rfl
    exact absurd (isBlank_of_stray hc) (by decide)
  rw [locatedPieces, toList_cleared, ← clearedChars, pieces_cleared, located_cleared hstrays]
  rfl

theorem tokens_cleared (source : String) : tokens (cleared source) = tokens source := by
  rw [tokens, locatedPieces_cleared, List.filterMap_map]
  refine congrArg (List.filterMap · _) (funext fun ⟨p, piece⟩ => ?_)
  cases piece <;> rfl

theorem strays_cleared (source : String) : strays (cleared source) = [] := by
  rw [strays, locatedPieces_cleared, List.filterMap_map, List.filterMap_eq_nil_iff]
  rintro ⟨p, piece⟩ -
  cases piece <;> rfl

namespace Rendition

/-- With a space for each character that is passed over, a text has the same words at the same
places, becomes the same code and has the same errors, and nothing is passed over. What was passed
over was told of each of these characters, in order and at its place. -/
theorem ofText_cleared (source : String) :
    tokens (cleared source) = tokens source ∧
    strays (cleared source) = [] ∧
    (ofText (cleared source)).code = (ofText source).code ∧
    (ofText (cleared source)).diagnostics = (ofText source).syntactic ∧
    (ofText source).lexical =
      ((placed .start source.toList).filter fun x => x.1 ∈ strayPlaces source).map fun x =>
        ⟨.illegal x.2, x.1⟩ := by
  have htokens := tokens_cleared source
  have hstrays := strays_cleared source
  refine ⟨htokens, hstrays, ?_, ?_, ?_⟩
  · rw [ofText, ofText, htokens]
  · rw [diagnostics_eq, lexical_ofText, hstrays, syntactic_ofText, syntactic_ofText, htokens,
      List.nil_append]
  · rw [lexical_ofText, strays_eq]

example : cleared "a <$- 1 # 2" = "a < - 1   2" := by decide +kernel

end Rendition

end Pseudo

end Growth
