import Growth.Proofs.Place
import Growth.Pseudo.Token
import Mathlib.Data.List.Find

/-! The pieces of two texts, one behind the other, are those of both. A word does not go on behind the
end of its line, and what comes before a text counts for it only where the text begins with a sign. -/

namespace Growth

namespace Position

/-- The place `n` lines further down. -/
def lowered (n : Nat) (p : Position) : Position :=
  ⟨p.line + n, p.column⟩

theorem after_lowered (n : Nat) (p : Position) (cs : List Char) :
    (p.lowered n).after cs = (p.after cs).lowered n := by
  induction cs generalizing p with
  | nil => rfl
  | cons c cs ih =>
    have hstep : (p.lowered n).step c = (p.step c).lowered n := by
      unfold step lowered
      split
      · simp [Nat.add_right_comm]
      · rfl
    change ((p.lowered n).step c).after cs = ((p.step c).after cs).lowered n
    rw [hstep, ih]

theorem line_after (p : Position) (cs : List Char) :
    (p.after cs).line = p.line + cs.count '\n' := by
  induction cs generalizing p with
  | nil => rfl
  | cons c cs ih =>
    change ((p.step c).after cs).line = _
    rw [ih, step]
    split
    · rename_i hc
      simp [hc]
      omega
    · rename_i hc
      rw [List.count_cons_of_ne hc]

/-- The first line behind a text and a line end. -/
theorem start_after_newline (cs : List Char) :
    start.after (cs ++ ['\n']) = start.lowered (cs.count '\n' + 1) := by
  rw [after_append]
  change (start.after cs).step '\n' = _
  rw [step, if_pos rfl, line_after, Nat.add_assoc]
  rfl

end Position

namespace Pseudo

/-! ### How words begin -/

/-- Whether a number begins with `c` before `cs`, either with a digit or with a sign of its own. -/
def beginsNumber (operand : Bool) (c : Char) (cs : List Char) : Bool :=
  c.isDigit || (operand && (c == '+' || c == '-') && cs.head?.any Char.isDigit)

/-- How a word begins with `c` before `cs`: its kind and how it goes on. -/
inductive Begins (operand : Bool) (c : Char) (cs : List Char) : Kind → List Char → Prop
  | number (h : beginsNumber operand c cs = true) :
      Begins operand c cs .number (cs.takeWhile Char.isDigit)
  | name (hnumber : beginsNumber operand c cs = false) (h : startsName c = true) :
      Begins operand c cs
        ((Kind.keyword? (String.ofList (c :: cs.takeWhile continuesName))).getD .name)
        (cs.takeWhile continuesName)
  | sign {sign : Char × List Char × Kind} (hnumber : beginsNumber operand c cs = false)
      (hname : startsName c = false)
      (h : (signs.find? fun s => s.1 == c && s.2.1.isPrefixOf cs) = some sign) :
      Begins operand c cs sign.2.2 sign.2.1

section Begins

variable {operand : Bool} {c : Char} {cs more : List Char} {k : Kind}

theorem word?_eq_some_iff : word? operand c cs = some (k, more) ↔ Begins operand c cs k more := by
  constructor
  · intro h
    unfold word? at h
    split at h
    · rename_i hnumber
      obtain ⟨rfl, rfl⟩ := Prod.mk.inj (Option.some.inj h)
      exact .number hnumber
    rename_i hnumber
    have hnumber := Bool.eq_false_iff.mpr hnumber
    split at h
    · rename_i hname
      obtain ⟨rfl, rfl⟩ := Prod.mk.inj (Option.some.inj h)
      exact .name hnumber hname
    · rename_i hname
      obtain ⟨sign, hfind, hsign⟩ := Option.map_eq_some_iff.mp h
      obtain ⟨rfl, rfl⟩ := Prod.mk.inj hsign
      exact .sign hnumber (Bool.eq_false_iff.mpr hname) hfind
  · intro h
    cases h with
    | number h => exact if_pos h
    | name hnumber h => exact (if_neg (Bool.eq_false_iff.mp hnumber)).trans (if_pos h)
    | sign hnumber hname h =>
      refine (if_neg (Bool.eq_false_iff.mp hnumber)).trans ?_
      rw [if_neg (Bool.eq_false_iff.mp hname), h]
      rfl

theorem prefix_of_word? (h : word? operand c cs = some (k, more)) : more <+: cs := by
  cases word?_eq_some_iff.mp h with
  | number | name => exact List.takeWhile_prefix _
  | sign _ _ hfind =>
    have hfound := List.find?_some hfind
    simp only [Bool.and_eq_true, List.isPrefixOf_iff_prefix] at hfound
    exact hfound.2

end Begins

/-! ### Words and line ends -/

theorem takeWhile_newline {p : Char → Bool} (hp : p '\n' = false) (cs ds : List Char) :
    (cs ++ '\n' :: ds).takeWhile p = cs.takeWhile p := by
  induction cs with
  | nil => simp [hp]
  | cons c cs ih => simp [List.takeWhile_cons, ih]

/-- No sign has a line end in it. -/
theorem isPrefixOf_newline {sign : Char × List Char × Kind} (h : sign ∈ signs) (cs ds : List Char) :
    sign.2.1.isPrefixOf (cs ++ '\n' :: ds) = sign.2.1.isPrefixOf cs := by
  have hsign : '\n' ∉ sign.2.1 := by
    have hall : ∀ sign ∈ signs, '\n' ∉ sign.2.1 := by decide
    exact hall sign h
  generalize sign.2.1 = more at hsign
  induction more generalizing cs with
  | nil => simp
  | cons d more ih =>
    simp only [List.mem_cons, not_or] at hsign
    cases cs with
    | nil => simp [List.isPrefixOf, Ne.symm hsign.1]
    | cons c cs => simp [List.isPrefixOf, ih cs hsign.2]

/-- A word ends with its line. -/
theorem word?_newline (operand : Bool) (c : Char) (cs ds : List Char) :
    word? operand c (cs ++ '\n' :: ds) = word? operand c cs := by
  have hhead : (cs ++ '\n' :: ds).head?.any Char.isDigit = cs.head?.any Char.isDigit := by
    cases cs with
    | nil => rfl
    | cons => rfl
  have hsigns : (signs.find? fun s => s.1 == c && s.2.1.isPrefixOf (cs ++ '\n' :: ds)) =
      signs.find? fun s => s.1 == c && s.2.1.isPrefixOf cs :=
    List.find?_congr fun sign hsign => by rw [isPrefixOf_newline hsign]
  rw [word?, word?, hhead, takeWhile_newline (by decide), takeWhile_newline (by decide), hsigns]

/-- A word that is no number is the same where no operand is expected, and so is a character that
begins none. -/
theorem word?_of_true {c : Char} {cs : List Char} {o : Option (Kind × List Char)}
    (h : word? true c cs = o) (ho : ∀ p ∈ o, p.1 ≠ .number) (operand : Bool) :
    word? operand c cs = o := by
  subst h
  have hnumber : ¬(c.isDigit || (true && (c == '+' || c == '-') && cs.head?.any Char.isDigit)) =
      true := by
    intro hn
    rw [word?, if_pos hn] at ho
    exact ho _ rfl rfl
  have hnumber' : ¬(c.isDigit || (operand && (c == '+' || c == '-') &&
      cs.head?.any Char.isDigit)) = true := by
    intro hn
    refine hnumber ?_
    cases operand <;> simp_all
  rw [word?, if_neg hnumber', word?, if_neg hnumber]

/-! ### Pieces of two texts -/

/-! The whole definition is opened before a case of it is taken: that its cases are not true by
computation shows only after long computing. -/

section Equations

variable {operand : Bool} {c : Char} {cs more : List Char} {k : Kind}

theorem pieces_nil : pieces operand [] = [] := by
  rw [pieces.eq_def]

theorem pieces_blank (h : isBlank c = true) :
    pieces operand (c :: cs) = .blank c :: pieces operand cs := by
  rw [pieces.eq_def]
  dsimp only
  rw [if_pos h]

theorem pieces_stray (h : ¬isBlank c = true) (hnone : word? operand c cs = none) :
    pieces operand (c :: cs) = .stray c :: pieces operand cs := by
  rw [pieces.eq_def]
  dsimp only
  rw [if_neg h, hnone]

theorem pieces_word (h : ¬isBlank c = true) (hword : word? operand c cs = some (k, more)) :
    pieces operand (c :: cs) =
      .word k (String.ofList (c :: more)) :: pieces (!k.endsOperand) (cs.drop more.length) := by
  rw [pieces.eq_def]
  dsimp only
  rw [if_neg h, hword]

end Equations

/-- Whether an operand is expected after a piece, if `operand` tells it before. -/
def Piece.expects (operand : Bool) : Piece → Bool
  | .word kind _ => !kind.endsOperand
  | _ => operand

/-- The pieces of a text are those of its first lines and then those of the others. -/
theorem pieces_newline (operand : Bool) (cs ds : List Char) :
    pieces operand (cs ++ '\n' :: ds) = pieces operand cs ++
      .blank '\n' :: pieces ((pieces operand cs).foldl Piece.expects operand) ds := by
  induction operand, cs using pieces.induct with
  | case1 operand =>
    rw [List.nil_append, pieces_blank (by decide), pieces_nil]
    rfl
  | case2 operand c cs hblank ih =>
    rw [List.cons_append, pieces_blank hblank, pieces_blank hblank, ih]
    rfl
  | case3 operand c cs hblank hnone ih =>
    have hnone' := (word?_newline operand c cs ds).trans hnone
    rw [List.cons_append, pieces_stray hblank hnone', pieces_stray hblank hnone, ih]
    rfl
  | case4 operand c cs hblank k more hword ih =>
    have hword' := (word?_newline operand c cs ds).trans hword
    rw [List.cons_append, pieces_word hblank hword', pieces_word hblank hword,
      List.drop_append_of_le_length (prefix_of_word? hword).length_le, ih]
    rfl

/-- The pieces one after the other are the text. -/
theorem chars_pieces (operand : Bool) (cs : List Char) :
    (pieces operand cs).flatMap Piece.chars = cs := by
  induction operand, cs using pieces.induct with
  | case1 operand => rw [pieces_nil, List.flatMap_nil]
  | case2 operand c cs hblank ih =>
    rw [pieces_blank hblank, List.flatMap_cons, ih]
    rfl
  | case3 operand c cs hblank hnone ih =>
    rw [pieces_stray hblank hnone, List.flatMap_cons, ih]
    rfl
  | case4 operand c cs hblank k more hword ih =>
    obtain ⟨rest, rfl⟩ := prefix_of_word? hword
    rw [pieces_word hblank hword, List.flatMap_cons, ih, List.drop_left, Piece.chars,
      String.toList_ofList, List.cons_append]

/-- What is cut from a text: a blank, a character that begins no word, or a word. -/
inductive IsPiece : Piece → Prop
  | blank {c : Char} (h : isBlank c = true) : IsPiece (.blank c)
  | stray {operand : Bool} {c : Char} {cs : List Char} (h : ¬isBlank c = true)
      (hnone : word? operand c cs = none) : IsPiece (.stray c)
  | word {operand : Bool} {c : Char} {cs more : List Char} {k : Kind} (h : ¬isBlank c = true)
      (hword : word? operand c cs = some (k, more)) :
      IsPiece (.word k (String.ofList (c :: more)))

theorem isPiece_of_mem {operand : Bool} {cs : List Char} {piece : Piece}
    (h : piece ∈ pieces operand cs) : IsPiece piece := by
  induction operand, cs using pieces.induct with
  | case1 operand =>
    rw [pieces_nil] at h
    cases h
  | case2 operand c cs hblank ih =>
    rw [pieces_blank hblank] at h
    rcases List.mem_cons.mp h with rfl | h
    · exact .blank hblank
    · exact ih h
  | case3 operand c cs hblank hnone ih =>
    rw [pieces_stray hblank hnone] at h
    rcases List.mem_cons.mp h with rfl | h
    · exact .stray hblank hnone
    · exact ih h
  | case4 operand c cs hblank k more hword ih =>
    rw [pieces_word hblank hword] at h
    rcases List.mem_cons.mp h with rfl | h
    · exact .word hblank hword
    · exact ih h

/-- The kind of the word that a piece is. -/
def Piece.kind? : Piece → Option Kind
  | .word kind _ => some kind
  | _ => none

/-- Where the first word of a text is no number, what comes before the text does not count. -/
theorem pieces_eq_of_first {cs : List Char}
    (h : (pieces true cs).findSome? Piece.kind? ≠ some .number) (operand : Bool) :
    pieces operand cs = pieces true cs := by
  generalize htrue : true = expected at h ⊢
  induction expected, cs using pieces.induct with
  | case1 => rw [pieces_nil, pieces_nil]
  | case2 expected c cs hblank ih =>
    subst htrue
    rw [pieces_blank hblank] at h ⊢
    rw [pieces_blank hblank, ih rfl h]
  | case3 expected c cs hblank hnone ih =>
    subst htrue
    rw [pieces_stray hblank hnone] at h ⊢
    rw [pieces_stray hblank (word?_of_true hnone nofun operand), ih rfl h]
  | case4 expected c cs hblank k more hword ih =>
    subst htrue
    rw [pieces_word hblank hword] at h ⊢
    have hk : k ≠ .number := fun hk => h (congrArg some hk)
    rw [pieces_word hblank (word?_of_true hword (by rintro _ ⟨⟩; exact hk) operand)]

/-! ### Places -/

theorem located_append (p : Position) (ps qs : List Piece) :
    located p (ps ++ qs) = located p ps ++ located (p.after (ps.flatMap Piece.chars)) qs := by
  induction ps generalizing p with
  | nil => rfl
  | cons piece ps ih =>
    rw [List.cons_append, located, ih, located, List.flatMap_cons, Position.after_append,
      List.cons_append]

theorem located_lowered (n : Nat) (p : Position) (ps : List Piece) :
    located (p.lowered n) ps = (located p ps).map (Prod.map (Position.lowered n) id) := by
  induction ps generalizing p with
  | nil => rfl
  | cons piece ps ih =>
    rw [located, located, Position.after_lowered, ih]
    rfl

/-- What is found in the pieces of a second text stands below what is found in those of the first. -/
theorem filterMap_locatedPieces {a b : String} {n : Nat} (hn : n = a.toList.count '\n' + 1)
    (hb : (pieces true b.toList).findSome? Piece.kind? ≠ some .number) {α : Type}
    {f : Position × Piece → Option α} {lower : α → α} (hblank : ∀ p, f (p, .blank '\n') = none)
    (hlower : ∀ p piece, f (p.lowered n, piece) = (f (p, piece)).map lower) :
    (locatedPieces (a ++ "\n" ++ b)).filterMap f =
      (locatedPieces a).filterMap f ++ ((locatedPieces b).filterMap f).map lower := by
  have htext : (a ++ "\n" ++ b).toList = a.toList ++ '\n' :: b.toList := by simp
  have hplace : (Position.start.after a.toList).after (Piece.blank '\n').chars =
      Position.start.lowered n := by
    rw [hn, Piece.chars, ← Position.after_append, Position.start_after_newline]
  have hfound : f ∘ Prod.map (Position.lowered n) id = fun x => (f x).map lower :=
    funext fun x => hlower x.1 x.2
  unfold locatedPieces
  rw [htext, pieces_newline, pieces_eq_of_first hb, located_append, chars_pieces, located, hplace,
    located_lowered, List.filterMap_append, List.filterMap_cons, hblank, List.filterMap_map, hfound,
    List.map_filterMap]

/-! ### Tokens and strays -/

/-- The token `n` lines further down. -/
def Token.lowered (n : Nat) (t : Token) : Token :=
  { t with position := t.position.lowered n }

/-- The diagnostic `n` lines further down. -/
def Diagnostic.lowered (n : Nat) (d : Diagnostic) : Diagnostic :=
  { d with position := d.position.lowered n }

/-- The kind of the first token. -/
theorem head?_tokens (source : String) :
    (tokens source).head?.map Token.kind =
      (pieces true source.toList).findSome? Piece.kind? := by
  unfold tokens locatedPieces
  generalize Position.start = p
  induction pieces true source.toList generalizing p with
  | nil => rfl
  | cons piece ps ih =>
    cases piece with
    | word => rfl
    | blank | stray => exact ih _

section Newline

variable {a b : String} {n : Nat}

theorem tokens_newline (hn : n = a.toList.count '\n' + 1)
    (hb : (tokens b).head?.map Token.kind ≠ some .number) :
    tokens (a ++ "\n" ++ b) = tokens a ++ (tokens b).map (Token.lowered n) := by
  rw [head?_tokens] at hb
  exact filterMap_locatedPieces hn hb (fun _ => rfl) fun _ piece => by cases piece <;> rfl

theorem strays_newline (hn : n = a.toList.count '\n' + 1)
    (hb : (tokens b).head?.map Token.kind ≠ some .number) :
    strays (a ++ "\n" ++ b) = strays a ++ (strays b).map (Diagnostic.lowered n) := by
  rw [head?_tokens] at hb
  exact filterMap_locatedPieces hn hb (fun _ => rfl) fun _ piece => by cases piece <;> rfl

end Newline

end Pseudo

end Growth
