import Growth.Proofs.Rendition.Characters

/-! Words do not depend on what is between them. A text that has the lexemes of another one with single
spaces between them has the same words, and so texts with the same lexemes become the same code. -/

namespace Growth.Pseudo

/-- The lexemes of a text with single spaces between them. -/
def spaced (source : String) : String :=
  " ".intercalate ((tokens source).map Token.lexeme)

/-! ### Words by themselves -/

section Words

variable {operand : Bool} {c : Char} {cs more : List Char} {k : Kind}

theorem any_head?_of_shorter {p : Char → Bool} (h : more <+: cs) (hmore : more.head?.any p = true) :
    cs.head?.any p = true := by
  cases more with
  | nil => cases hmore
  | cons d more =>
    obtain ⟨rest, rfl⟩ := h
    exact hmore

/-- The sign that is found is found where nothing stands behind it. -/
theorem find?_signs_of_shorter {sign : Char × List Char × Kind}
    (h : (signs.find? fun s => s.1 == c && s.2.1.isPrefixOf cs) = some sign) :
    (signs.find? fun s => s.1 == c && s.2.1.isPrefixOf sign.2.1) = some sign := by
  obtain ⟨hsign, before, after, hsigns, hbefore⟩ := List.find?_eq_some_iff_append.mp h
  simp only [Bool.and_eq_true, List.isPrefixOf_iff_prefix] at hsign
  refine List.find?_eq_some_iff_append.mpr ⟨by simp [hsign.1], before, after, hsigns, ?_⟩
  intro s hs
  have hnot := hbefore s hs
  simp only [Bool.not_eq_true', Bool.and_eq_false_iff] at hnot ⊢
  refine hnot.imp_right fun hprefix => Bool.eq_false_iff.mpr fun hshorter => ?_
  rw [List.isPrefixOf_iff_prefix] at hshorter
  exact Bool.eq_false_iff.mp hprefix (List.isPrefixOf_iff_prefix.mpr (hshorter.trans hsign.2))

theorem beginsNumber_of_shorter (h : more <+: cs) (hnumber : beginsNumber operand c cs = false) :
    beginsNumber operand c more = false := by
  refine Bool.eq_false_iff.mpr fun hmore => Bool.eq_false_iff.mp hnumber ?_
  rw [beginsNumber, Bool.or_eq_true, Bool.and_eq_true] at hmore ⊢
  exact hmore.imp_right fun h' => ⟨h'.1, any_head?_of_shorter h h'.2⟩

/-- A word is the same if the text ends behind it. -/
theorem word?_self (h : word? operand c cs = some (k, more)) :
    word? operand c more = some (k, more) := by
  have hprefix := prefix_of_word? h
  rw [word?_eq_some_iff] at h ⊢
  cases h with
  | number hnumber =>
    have hhead : (cs.takeWhile Char.isDigit).head?.any Char.isDigit =
        cs.head?.any Char.isDigit := by
      cases cs with
      | nil => rfl
      | cons d cs => by_cases hd : d.isDigit = true <;> simp [hd]
    have hbegins : Begins operand c (cs.takeWhile Char.isDigit) .number _ :=
      .number (by rw [beginsNumber, hhead]; exact hnumber)
    rwa [List.takeWhile_idem] at hbegins
  | name hnumber hname =>
    have hbegins : Begins operand c (cs.takeWhile continuesName) _ _ :=
      .name (beginsNumber_of_shorter hprefix hnumber) hname
    rwa [List.takeWhile_idem] at hbegins
  | sign hnumber hname hfind =>
    exact .sign (beginsNumber_of_shorter hprefix hnumber) hname (find?_signs_of_shorter hfind)

/-- A word is the same if a space stands behind it. -/
theorem word?_space (h : word? operand c cs = some (k, more)) (rest : List Char) :
    word? operand c (more ++ ' ' :: rest) = some (k, more) := by
  -- A space is no part of a word, as a line end is not, behind which words are known to stay.
  have hnewline : IsInert '\n' := ⟨by decide, by decide⟩
  have hcleared : List.Forall₂ Cleared (more ++ '\n' :: rest) (more ++ ' ' :: rest) :=
    List.rel_append (List.forall₂_same.mpr fun d _ => .same d)
      (.cons (.space hnewline) (List.forall₂_same.mpr fun d _ => .same d))
  rw [word?_cleared operand c hcleared, word?_newline, word?_self h]

end Words

/-! ### Words with spaces between them -/

def Piece.isWord : Piece → Bool
  | .word .. => true
  | _ => false

/-- The pieces of words with spaces between them are these words and spaces. -/
theorem pieces_intercalate (operand : Bool) (cs : List Char) :
    pieces operand
        ([' '].intercalate (((pieces operand cs).filter Piece.isWord).map Piece.chars)) =
      ((pieces operand cs).filter Piece.isWord).intersperse (.blank ' ') := by
  induction operand, cs using pieces.induct with
  | case1 operand =>
    rw [pieces_nil]
    exact pieces_nil
  | case2 operand c cs hblank ih =>
    rw [pieces_blank hblank]
    exact ih
  | case3 operand c cs hblank hnone ih =>
    rw [pieces_stray hblank hnone]
    exact ih
  | case4 operand c cs hblank k more hword ih =>
    rw [pieces_word hblank hword, List.filter_cons_of_pos rfl, List.map_cons, Piece.chars,
      String.toList_ofList]
    -- Whether a sign behind the word begins a number depends on the word alone, and not on blanks.
    generalize (pieces (!k.endsOperand) (cs.drop more.length)).filter Piece.isWord = words at ih
    cases words with
    | nil =>
      rw [List.map_nil, List.intercalate_singleton, pieces_word hblank (word?_self hword),
        List.drop_length, pieces_nil]
      rfl
    | cons word words =>
      rw [List.map_cons] at ih ⊢
      rw [List.intercalate_cons_cons, List.append_assoc, List.singleton_append, List.cons_append,
        pieces_word hblank (word?_space hword _), List.drop_left, pieces_blank (by decide), ih]
      rfl

/-! ### Words of a text -/

/-- A token without its place. -/
def Token.lexed (t : Token) : Kind × String :=
  (t.kind, t.lexeme)

/-- What a piece gives a token without its place. -/
def Piece.lexed? : Piece → Option (Kind × String)
  | .word k lexeme => some (k, lexeme)
  | _ => none

def Piece.problem? : Piece → Option Problem
  | .stray c => some (.illegal c)
  | _ => none

/-- What is found in pieces, apart from their places. -/
theorem map_filterMap_locatedPieces {α β : Type} {f : Position × Piece → Option α} {g : α → β}
    {h : Piece → Option β} (hfound : ∀ p piece, (f (p, piece)).map g = h piece) (source : String) :
    ((locatedPieces source).filterMap f).map g = (pieces true source.toList).filterMap h := by
  have hplaces : (fun x => (f x).map g) = h ∘ Prod.snd := funext fun x => hfound x.1 x.2
  rw [List.map_filterMap, hplaces, ← List.filterMap_map, locatedPieces, map_snd_located]

theorem map_lexed_tokens (source : String) :
    (tokens source).map Token.lexed = (pieces true source.toList).filterMap Piece.lexed? :=
  map_filterMap_locatedPieces (fun _ piece => by cases piece <;> rfl) source

theorem map_problem_strays (source : String) :
    (strays source).map Diagnostic.problem =
      (pieces true source.toList).filterMap Piece.problem? :=
  map_filterMap_locatedPieces (fun _ piece => by cases piece <;> rfl) source

theorem map_chars_lexed (ps : List Piece) :
    (ps.filterMap Piece.lexed?).map (fun w => w.2.toList) =
      (ps.filter Piece.isWord).map Piece.chars := by
  induction ps with
  | nil => rfl
  | cons piece ps ih =>
    cases piece with
    | word k lexeme => exact congrArg (lexeme.toList :: ·) ih
    | blank | stray => exact ih

theorem toList_spaced (source : String) : (spaced source).toList =
    [' '].intercalate (((pieces true source.toList).filter Piece.isWord).map Piece.chars) := by
  rw [spaced, String.toList_intercalate, ← map_chars_lexed, ← map_lexed_tokens, List.map_map,
    List.map_map]
  rfl

theorem filterMap_intersperse {α : Type} {f : Piece → Option α} (hf : f (.blank ' ') = none)
    (ps : List Piece) : (ps.intersperse (.blank ' ')).filterMap f = ps.filterMap f := by
  match ps with
  | [] => rfl
  | [_] => rfl
  | piece :: piece' :: ps =>
    rw [List.intersperse_cons_cons, List.filterMap_cons, List.filterMap_cons_none hf,
      filterMap_intersperse hf (piece' :: ps), ← List.filterMap_cons]

theorem filterMap_pieces_spaced {α : Type} {f : Piece → Option α} (hf : f (.blank ' ') = none)
    (source : String) : (pieces true (spaced source).toList).filterMap f =
      ((pieces true source.toList).filter Piece.isWord).filterMap f := by
  rw [toList_spaced, pieces_intercalate, filterMap_intersperse hf]

theorem map_lexed_tokens_spaced (source : String) :
    (tokens (spaced source)).map Token.lexed = (tokens source).map Token.lexed := by
  rw [map_lexed_tokens, map_lexed_tokens, filterMap_pieces_spaced rfl, List.filterMap_filter]
  refine congrArg (List.filterMap · _) (funext fun piece => ?_)
  cases piece <;> rfl

theorem strays_spaced (source : String) : strays (spaced source) = [] := by
  rw [← List.map_eq_nil_iff, map_problem_strays, filterMap_pieces_spaced rfl,
    List.filterMap_eq_nil_iff]
  intro piece hpiece
  cases piece with
  | stray => cases (List.mem_filter.mp hpiece).2
  | blank | word => rfl

/-! ### The code of words -/

theorem alike_of_lexed {ts ts' : List Token} (h : ts.map Token.lexed = ts'.map Token.lexed) :
    Alike (fun _ _ => True) ts ts' := by
  induction ts generalizing ts' with
  | nil =>
    rw [List.map_eq_nil_iff.mp h.symm]
    exact .nil
  | cons t ts ih =>
    obtain ⟨t', ts', rfl, ht, hts⟩ := List.map_eq_cons_iff.mp h.symm
    obtain ⟨k, lexeme, p⟩ := t
    obtain ⟨k', lexeme', p'⟩ := t'
    cases ht
    exact .cons trivial (fun _ => rfl) (ih hts.symm)

namespace Rendition

/-- What words become does not depend on where they stand. -/
theorem code_ofText_of_lexed {a b : String}
    (h : (tokens a).map Token.lexed = (tokens b).map Token.lexed) :
    (ofText a).code = (ofText b).code := by
  have hstatements := (readStatements_agrees [] (alike_of_lexed h)).statements
  have hcode (code : String) : (ofText a).code = some code ↔ (ofText b).code = some code := by
    rw [code_eq_some_iff, code_eq_some_iff, hstatements]
  exact Option.ext hcode

/-- The lexemes of a text with single spaces between them are read as the words that they were, and
nothing else is found between them. So texts with the same lexemes become the same code. -/
theorem ofText_spaced (source : String) :
    (tokens (spaced source)).map Token.lexed = (tokens source).map Token.lexed ∧
    strays (spaced source) = [] ∧
    ∀ other, (tokens other).map Token.lexeme = (tokens source).map Token.lexeme →
      (ofText other).code = (ofText source).code := by
  refine ⟨map_lexed_tokens_spaced source, strays_spaced source, fun other h => ?_⟩
  have hspaced : spaced other = spaced source := by rw [spaced, h, spaced]
  refine code_ofText_of_lexed ?_
  rw [← map_lexed_tokens_spaced other, hspaced, map_lexed_tokens_spaced]

/-- A minus, a number with a minus, a minus behind an operand, and a character to pass over. -/
theorem ofText_spaced_signs :
    spaced "a<--3--2$-1" = "a <- -3 - -2 - 1" ∧
      (tokens "a <- -3\n- -2 -\t1").map Token.lexeme =
        (tokens "a<--3--2$-1").map Token.lexeme ∧
      (ofText "a <- -3\n- -2 -\t1").code = (ofText "a<--3--2$-1").code := by
  have hlexemes : (tokens "a <- -3\n- -2 -\t1").map Token.lexeme =
      (tokens "a<--3--2$-1").map Token.lexeme := by decide +kernel
  exact ⟨by decide +kernel, hlexemes, (ofText_spaced "a<--3--2$-1").2.2 _ hlexemes⟩

end Rendition

end Growth.Pseudo
