import Growth.Proofs.Place
import Growth.Proofs.Rendition.Reports

/-! No character of a text is lost and none is taken twice. What is not blank is in one word or is
reported once, each at its place; words, reported characters and blanks, put in the order of their
places, are the text. -/

namespace Growth

/-! ### Places -/

namespace Position

/-- Whether a place is the other one or comes before it. -/
def le (p q : Position) : Bool :=
  p.line < q.line || p.line == q.line && p.column ≤ q.column

theorem le_iff {p q : Position} : p.le q = true ↔ p = q ∨ p.Before q := by
  obtain ⟨l, c⟩ := p
  obtain ⟨l', c'⟩ := q
  simp only [le, Before, Bool.or_eq_true, Bool.and_eq_true, decide_eq_true_eq, beq_iff_eq,
    mk.injEq]
  omega

theorem le_trans {p q r : Position} (h : p.le q = true) (h' : q.le r = true) : p.le r = true := by
  simp only [le, Bool.or_eq_true, Bool.and_eq_true, decide_eq_true_eq, beq_iff_eq] at *
  omega

theorem le_total (p q : Position) : (p.le q || q.le p) = true := by
  simp only [le, Bool.or_eq_true, Bool.and_eq_true, decide_eq_true_eq, beq_iff_eq]
  omega

theorem le_antisymm {p q : Position} (h : p.le q = true) (h' : q.le p = true) : p = q := by
  obtain ⟨l, c⟩ := p
  obtain ⟨l', c'⟩ := q
  simp only [le, Bool.or_eq_true, Bool.and_eq_true, decide_eq_true_eq, beq_iff_eq, mk.injEq] at *
  omega

end Position

namespace Pseudo

/-! ### Blanks and words -/

theorem isBlank_of_isAlphanum {c : Char} (h : c.isAlphanum = true ∨ c = '_') :
    isBlank c = false := by
  obtain ⟨hprintable, hspace⟩ := isPrintable_of_isAlphanum h
  have hne : c ≠ '\x08' := by
    rintro rfl
    exact absurd hprintable (by decide)
  simp [isBlank, not_isBlank_of_isPrintable hprintable hspace, hne]

theorem isBlank_of_word? {operand : Bool} {c : Char} {cs more : List Char} {k : Kind}
    (hword : word? operand c cs = some (k, more)) : ∀ d ∈ more, isBlank d = false := by
  intro d hd
  cases word?_eq_some_iff.mp hword with
  | number =>
    have hdigit := List.mem_takeWhile_imp hd
    exact isBlank_of_isAlphanum (.inl (by simp [Char.isAlphanum, hdigit]))
  | name =>
    have hname := List.mem_takeWhile_imp hd
    refine isBlank_of_isAlphanum ?_
    simpa [continuesName] using hname
  | sign _ _ hfind =>
    have hall : (signs.all fun sign => sign.2.1.all fun d => !isBlank d) = true := by decide
    have hsign := List.all_eq_true.mp hall _ (List.mem_of_find?_eq_some hfind)
    simpa using List.all_eq_true.mp hsign d hd

/-- The characters of a piece are blank if it is a blank, and else none of them is. -/
theorem isBlank_of_mem_chars {piece : Piece} (h : IsPiece piece) {c : Char}
    (hc : c ∈ piece.chars) : isBlank c = true ↔ piece = .blank c := by
  cases h with
  | blank h =>
    rw [List.mem_singleton.mp hc]
    exact iff_of_true h rfl
  | stray h _ =>
    rw [List.mem_singleton.mp hc]
    exact iff_of_false h (by simp)
  | word h hword =>
    rw [Piece.chars, String.toList_ofList] at hc
    refine iff_of_false (fun hblank => ?_) (by simp)
    rcases List.mem_cons.mp hc with rfl | hc
    · exact h hblank
    · rw [isBlank_of_word? hword c hc] at hblank
      cases hblank

/-! ### Words, reports and blanks in order -/

def Token.characters (t : Token) : List (Position × Char) :=
  placed t.position t.lexeme.toList

/-- The character that a problem is about, if it is about one. -/
def Problem.chars : Problem → List Char
  | .illegal c => [c]
  | _ => []

/-- The character that a diagnostic is about, with its place. -/
def Diagnostic.characters (d : Diagnostic) : List (Position × Char) :=
  placed d.position d.problem.chars

def blanks (source : String) : List (Position × Char) :=
  (placed .start source.toList).filter fun x => isBlank x.2

/-- The blanks of a text, the lexemes of its tokens and the characters that are reported, each with its
place. -/
def parts (source : String) : List (Position × List Char) :=
  (blanks source).map (fun x => (x.1, [x.2])) ++
    (tokens source).map (fun t => (t.position, t.lexeme.toList)) ++
    (strays source).map fun d => (d.position, d.problem.chars)

def token? : Position × Piece → Option Token
  | (p, .word kind lexeme) => some ⟨kind, lexeme, p⟩
  | _ => none

def stray? : Position × Piece → Option Diagnostic
  | (p, .stray c) => some ⟨.illegal c, p⟩
  | _ => none

theorem tokens_eq (source : String) : tokens source = (locatedPieces source).filterMap token? := rfl

theorem strays_eq_filterMap (source : String) :
    strays source = (locatedPieces source).filterMap stray? := rfl

theorem characters_of_token? {x : Position × Piece} {t : Token} (h : t ∈ token? x) :
    t.characters = placed x.1 x.2.chars := by
  obtain ⟨p, piece⟩ := x
  cases piece with
  | word =>
    cases h
    rfl
  | blank | stray => cases h

theorem characters_of_stray? {x : Position × Piece} {d : Diagnostic} (h : d ∈ stray? x) :
    d.characters = placed x.1 x.2.chars := by
  obtain ⟨p, piece⟩ := x
  cases piece with
  | stray =>
    cases h
    rfl
  | blank | word => cases h

theorem isPiece_of_mem_located {source : String} {x : Position × Piece}
    (h : x ∈ locatedPieces source) : IsPiece x.2 := by
  have hmem : x.2 ∈ pieces true source.toList := by
    rw [← map_snd_located .start (pieces true source.toList)]
    exact List.mem_map_of_mem h
  exact isPiece_of_mem hmem

theorem blanks_eq (source : String) : blanks source =
    (locatedPieces source).filterMap fun
      | (p, .blank c) => some (p, c)
      | _ => none := by
  rw [blanks, placed_source, List.filter_flatMap, List.filterMap_eq_flatMap_toList]
  refine List.flatMap_congr fun ⟨q, piece⟩ hpiece => ?_
  have hblank (c : Char) (hc : c ∈ piece.chars) := isBlank_of_mem_chars
    (isPiece_of_mem_located hpiece) hc
  cases piece with
  | blank c => simpa [placed, Piece.chars] using hblank
  | stray | word =>
    refine List.filter_eq_nil_iff.mpr fun x hx hx' => ?_
    have hchars := List.mem_map_of_mem (f := Prod.snd) hx
    rw [map_snd_placed] at hchars
    cases (hblank x.2 hchars).mp hx'

/-- Each piece of a text is a blank, a word or a stray. -/
theorem parts_perm (source : String) :
    (parts source).Perm ((locatedPieces source).map fun x => (x.1, x.2.chars)) := by
  rw [parts, blanks_eq, tokens, strays, List.map_filterMap, List.map_filterMap, List.map_filterMap]
  induction locatedPieces source with
  | nil => exact .nil
  | cons x xs ih =>
    obtain ⟨p, piece⟩ := x
    cases piece with
    | blank c => exact ih.cons (p, [c])
    | word k lexeme =>
      refine (List.Perm.append_right _ List.perm_middle).trans ?_
      exact ih.cons (p, lexeme.toList)
    | stray c =>
      refine List.perm_middle.trans ?_
      exact ih.cons (p, [c])

theorem pairwise_locatedPieces (source : String) :
    (locatedPieces source).Pairwise fun x y => x.1.Before y.1 :=
  pairwise_located (fun _ => chars_ne_nil_of_mem) .start

/-- Whether a part stands where the other one does or before it. -/
def inOrder (x y : Position × List Char) : Bool :=
  x.1.le y.1

theorem inOrder_trans (x y z : Position × List Char) (h : inOrder x y = true)
    (h' : inOrder y z = true) : inOrder x z = true :=
  Position.le_trans h h'

theorem inOrder_total (x y : Position × List Char) : (inOrder x y || inOrder y x) = true :=
  x.1.le_total y.1

theorem chars_locatedPieces (source : String) :
    (locatedPieces source).flatMap (fun x => x.2.chars) = source.toList := by
  rw [← List.flatMap_map, locatedPieces, map_snd_located, chars_pieces]

/-- In the order of their places, the parts of a text are its pieces. -/
theorem mergeSort_parts (source : String) :
    (parts source).mergeSort inOrder = (locatedPieces source).map fun x => (x.1, x.2.chars) := by
  have hperm := (List.mergeSort_perm (parts source) inOrder).trans (parts_perm source)
  have hsorted := List.pairwise_mergeSort inOrder_trans inOrder_total (parts source)
  have hpieces : ((locatedPieces source).map fun x => (x.1, x.2.chars)).Pairwise
      fun x y => x.1.Before y.1 :=
    List.pairwise_map.mpr (pairwise_locatedPieces source)
  -- Sorting leaves open how parts of one place are ordered, but no two pieces have one place.
  refine hperm.eq_of_pairwise (fun x y hx hy hxy hyx => ?_) hsorted
    (hpieces.imp fun h => Position.le_iff.mpr (.inr h))
  by_contra hne
  have : Std.Symm fun a b : Position × List Char => a.1 ≠ b.1 := ⟨fun _ _ h => h.symm⟩
  have hplaces := hpieces.imp fun h => h.ne
  exact hplaces.forall (hperm.mem_iff.mp hx) hy hne (Position.le_antisymm hxy hyx)

/-! ### Each character once -/

section Once

variable {source : String} {x : Position × Char}

/-- A character is in one piece only. -/
theorem not_mem_other {before after : List (Position × Piece)} {y : Position × Piece}
    (h : locatedPieces source = before ++ y :: after) (hx : x ∈ placed y.1 y.2.chars) :
    ∀ z ∈ before ++ after, x ∉ placed z.1 z.2.chars := by
  have hpairwise := pairwise_placed .start source.toList
  rw [placed_source, List.pairwise_flatMap, h, List.pairwise_append, List.pairwise_cons]
    at hpairwise
  obtain ⟨-, -, ⟨hafter, -⟩, hbefore⟩ := hpairwise
  intro z hz hxz
  rcases List.mem_append.mp hz with hz | hz
  · exact hbefore z hz y (List.mem_cons_self ..) x hxz x hx rfl
  · exact hafter z hz x hx x hxz rfl

/-- What shows the characters of its piece counts a character once if it is found in the piece that the
character is in. -/
theorem countP_filterMap {α : Type} {f : Position × Piece → Option α}
    {characters : α → List (Position × Char)}
    (hf : ∀ y, ∀ a ∈ f y, characters a = placed y.1 y.2.chars)
    {before after : List (Position × Piece)} {y : Position × Piece}
    (hx : x ∈ placed y.1 y.2.chars)
    (hothers : ∀ z ∈ before ++ after, x ∉ placed z.1 z.2.chars) :
    ((before ++ y :: after).filterMap f).countP (fun a => x ∈ characters a) =
      (f y).toList.length := by
  have hzero (zs : List (Position × Piece)) (hzs : ∀ z ∈ zs, z ∈ before ++ after) :
      (zs.filterMap f).countP (fun a => x ∈ characters a) = 0 := by
    refine List.countP_eq_zero.mpr fun a ha hxa => ?_
    obtain ⟨z, hz, ha⟩ := List.mem_filterMap.mp ha
    rw [hf z a ha] at hxa
    exact hothers z (hzs z hz) (of_decide_eq_true hxa)
  have hone : (f y).toList.countP (fun a => x ∈ characters a) = (f y).toList.length := by
    refine List.countP_eq_length.mpr fun a ha => decide_eq_true ?_
    rw [hf y a (Option.mem_toList.mp ha)]
    exact hx
  have hsplit : (before ++ y :: after).filterMap f =
      before.filterMap f ++ ((f y).toList ++ after.filterMap f) := by
    rw [List.filterMap_append, List.filterMap_cons]
    cases f y <;> rfl
  rw [hsplit, List.countP_append, List.countP_append,
    hzero before fun _ => List.mem_append_left after,
    hzero after fun _ => List.mem_append_right before, hone, Nat.zero_add, Nat.add_zero]

/-- A character that is not blank is in one token or in one diagnostic, and a blank is in none. -/
theorem countP_characters (hx : x ∈ placed .start source.toList) :
    (tokens source).countP (fun t => x ∈ t.characters) +
      (strays source).countP (fun d => x ∈ d.characters) = if isBlank x.2 then 0 else 1 := by
  rw [placed_source] at hx
  obtain ⟨⟨q, piece⟩, hmem, hx⟩ := List.mem_flatMap.mp hx
  obtain ⟨before, after, hpieces⟩ := List.append_of_mem hmem
  have hothers := not_mem_other hpieces hx
  have hchars := List.mem_map_of_mem (f := Prod.snd) hx
  rw [map_snd_placed] at hchars
  have hblank := isBlank_of_mem_chars (isPiece_of_mem_located hmem) hchars
  rw [tokens_eq, strays_eq_filterMap, hpieces,
    countP_filterMap (fun _ _ => characters_of_token?) hx hothers,
    countP_filterMap (fun _ _ => characters_of_stray?) hx hothers]
  cases piece with
  | blank c =>
    rw [if_pos (hblank.mpr (by rw [List.mem_singleton.mp hchars]))]
    rfl
  | stray | word =>
    rw [if_neg (mt hblank.mp nofun)]
    rfl

end Once

/-! ### Parts of a text at their places -/

/-- The characters stand in the text at the place behind what comes before them. -/
def StandsAt (source : String) (p : Position) (cs : List Char) : Prop :=
  ∃ before after, source.toList = before ++ cs ++ after ∧ p = .behind before

theorem exists_of_mem_located {p : Position} {ps : List Piece} {x : Position × Piece}
    (h : x ∈ located p ps) :
    ∃ before after, ps = before ++ x.2 :: after ∧ x.1 = p.after (before.flatMap Piece.chars) := by
  induction ps generalizing p with
  | nil => cases h
  | cons piece ps ih =>
    rcases List.mem_cons.mp h with rfl | h
    · exact ⟨[], ps, rfl, rfl⟩
    · obtain ⟨before, after, rfl, hplace⟩ := ih h
      refine ⟨piece :: before, after, rfl, ?_⟩
      rw [hplace, List.flatMap_cons, Position.after_append]

theorem standsAt_of_mem {source : String} {x : Position × Piece} (h : x ∈ locatedPieces source) :
    StandsAt source x.1 x.2.chars := by
  obtain ⟨before, after, hpieces, hplace⟩ := exists_of_mem_located h
  refine ⟨before.flatMap Piece.chars, after.flatMap Piece.chars, ?_, ?_⟩
  · rw [← chars_pieces true source.toList, hpieces, List.flatMap_append, List.flatMap_cons,
      List.append_assoc]
  · rw [hplace, Position.start_after]

theorem standsAt_of_mem_tokens {source : String} {t : Token} (h : t ∈ tokens source) :
    StandsAt source t.position t.lexeme.toList := by
  rw [tokens_eq] at h
  obtain ⟨⟨p, piece⟩, hmem, ht⟩ := List.mem_filterMap.mp h
  cases piece with
  | word k lexeme =>
    cases ht
    exact standsAt_of_mem hmem
  | blank | stray => cases ht

theorem standsAt_of_mem_strays {source : String} {d : Diagnostic} (h : d ∈ strays source) :
    ∃ c, d.problem = .illegal c ∧ StandsAt source d.position [c] := by
  rw [strays_eq_filterMap] at h
  obtain ⟨⟨p, piece⟩, hmem, hd⟩ := List.mem_filterMap.mp h
  cases piece with
  | stray c =>
    cases hd
    exact ⟨c, rfl, standsAt_of_mem hmem⟩
  | blank | word => cases hd

/-- Each character of a text that is not blank is in one token or in one report, and a blank is in none.
Tokens and reports come in the order of the text, and what they name stands at their place. With the
blanks, and all in the order of their places, they are the text. -/
theorem characters_once (source : String) :
    (∀ x ∈ placed .start source.toList,
      (tokens source).countP (fun t => x ∈ t.characters) +
        (strays source).countP (fun d => x ∈ d.characters) = if isBlank x.2 then 0 else 1) ∧
    ((tokens source).Pairwise fun t t' => t.position.Before t'.position) ∧
    ((strays source).Pairwise fun d d' => d.position.Before d'.position) ∧
    (∀ t ∈ tokens source, StandsAt source t.position t.lexeme.toList) ∧
    (∀ d ∈ strays source, ∃ c, d.problem = .illegal c ∧ StandsAt source d.position [c]) ∧
    ((parts source).mergeSort inOrder).flatMap Prod.snd = source.toList := by
  refine ⟨fun x => countP_characters, pairwise_tokens source, pairwise_strays source,
    fun t => standsAt_of_mem_tokens, fun d => standsAt_of_mem_strays, ?_⟩
  rw [mergeSort_parts, List.flatMap_map]
  exact chars_locatedPieces source

/-- The character in the middle of an arrow is reported, and what is left of the arrow is two words. -/
theorem characters_once_arrow :
    let source := "a\n<$- 1"
    ((tokens source).countP (fun t => (⟨2, 1⟩, '$') ∈ t.characters) +
        (strays source).countP (fun d => (⟨2, 1⟩, '$') ∈ d.characters) = 1) ∧
      ⟨.operator .minus, "-", ⟨2, 2⟩⟩ ∈ tokens source ∧ StandsAt source ⟨2, 2⟩ ['-'] ∧
      ⟨.illegal '$', ⟨2, 1⟩⟩ ∈ strays source ∧ StandsAt source ⟨2, 1⟩ ['$'] := by
  intro source
  obtain ⟨honce, -, -, htokens, hstrays, -⟩ := characters_once source
  have hchar : (⟨2, 1⟩, '$') ∈ placed .start source.toList := by decide +kernel
  have htoken : ⟨.operator .minus, "-", ⟨2, 2⟩⟩ ∈ tokens source := by decide +kernel
  have hstray : ⟨.illegal '$', ⟨2, 1⟩⟩ ∈ strays source := by decide +kernel
  obtain ⟨c, hc, hstands⟩ := hstrays _ hstray
  cases hc
  exact ⟨honce _ hchar, htoken, htokens _ htoken, hstray, hstands⟩

end Pseudo

end Growth
