import Growth.Proofs.Rendition.LetterCase

/-! Keywords may be written in any case. Texts that differ only in the case of letters in keywords
become the same code, and the same problems are reported at the same places; only where a keyword is
named does the report have it as it is written. -/

namespace Growth.Pseudo

/-! ### Texts that differ in the case of keywords -/

/-- Whether a kind is that of a keyword. -/
def Kind.isKeyword (k : Kind) : Bool :=
  Kind.keywords.any fun w => w.2 == k

/-- The places of the characters in keywords. -/
def keywordPlaces (source : String) : List Position :=
  ((tokens source).filter fun t => t.kind.isKeyword).flatMap fun t => t.characters.map Prod.fst

/-- The texts differ only in the case of ASCII letters, and only inside the keywords of the first.
-/
structure Recased (a b : String) : Prop where
  letters : lowerCase a = lowerCase b
  outside : ∀ x ∈ placed .start a.toList, x.1 ∉ keywordPlaces a → x ∈ placed .start b.toList

theorem isKeyword_of_keyword? {w : String} {k : Kind} (h : Kind.keyword? w = some k) :
    k.isKeyword = true := by
  rw [Kind.keyword?, List.lookup_eq_some_iff] at h
  obtain ⟨before, after, hkeywords, -⟩ := h
  rw [Kind.isKeyword, hkeywords]
  simp

theorem keyword?_of_isPiece {k : Kind} {w : String} (h : IsPiece (.word k w))
    (hk : k.isKeyword = true) : Kind.keyword? w = some k := by
  cases h with
  | @word operand c cs _ _ _ hword =>
    cases word?_eq_some_iff.mp hword with
    | number => cases hk
    | name =>
      cases hkeyword : Kind.keyword? (String.ofList (c :: cs.takeWhile continuesName)) with
      | none =>
        rw [hkeyword] at hk
        cases hk
      | some k => rfl
    | sign _ _ hfind =>
      have hsigns : ∀ sign ∈ signs, sign.2.2.isKeyword = false := by decide
      cases (hsigns _ (List.mem_of_find?_eq_some hfind)).symm.trans hk

/-- A character has the place of a keyword's character only if it is in that keyword. -/
theorem isKeyword_of_mem {source : String} {q : Position} {piece : Piece} {x : Position × Char}
    (hpiece : (q, piece) ∈ locatedPieces source) (hx : x ∈ placed q piece.chars)
    (hplace : x.1 ∈ keywordPlaces source) : ∃ k w, piece = .word k w ∧ k.isKeyword = true := by
  obtain ⟨t, ht, hplace⟩ := List.mem_flatMap.mp hplace
  obtain ⟨y, hy, hxy⟩ := List.mem_map.mp hplace
  obtain ⟨ht, hk⟩ := List.mem_filter.mp ht
  rw [tokens_eq] at ht
  obtain ⟨z, hz, ht⟩ := List.mem_filterMap.mp ht
  rw [characters_of_token? ht] at hy
  obtain rfl := eq_of_mem_locatedPieces hpiece hz hx hy hxy.symm
  cases piece with
  | word k w =>
    cases ht
    exact ⟨k, w, rfl, hk⟩
  | blank | stray => cases ht

/-! ### Their pieces -/

/-- The pieces are the same, but that a keyword may be written in another case. -/
inductive Piece.Recased : Piece → Piece → Prop
  | same (piece : Piece) : Recased piece piece
  | keyword {k : Kind} {w w' : String} (hk : Kind.keyword? w = some k)
      (hw : Pseudo.lowerCase w = Pseudo.lowerCase w') : Recased (.word k w) (.word k w')

theorem forall₂_located {ps qs : List Piece} (h : ps.map Piece.lowerCase = qs.map Piece.lowerCase)
    (p : Position) :
    List.Forall₂ (fun x y => x.1 = y.1 ∧ x.2.lowerCase = y.2.lowerCase) (located p ps)
      (located p qs) := by
  induction ps generalizing qs p with
  | nil =>
    rw [List.map_eq_nil_iff.mp h.symm]
    exact .nil
  | cons piece ps ih =>
    obtain ⟨piece', qs, rfl, hpiece, hqs⟩ := List.map_eq_cons_iff.mp h.symm
    have hafter : p.after piece'.chars = p.after piece.chars := by
      rw [← after_map_toLower, ← Piece.chars_lowerCase, hpiece, Piece.chars_lowerCase,
        after_map_toLower]
    rw [located, located, hafter]
    exact .cons ⟨rfl, hpiece.symm⟩ (ih hqs.symm _)

/-- The characters that stand at one place of a text are the same if they are as many. -/
theorem eq_of_placed_subset {source : String} {p : Position} {cs ds : List Char}
    (hlength : cs.length = ds.length) (hcs : placed p cs ⊆ placed .start source.toList)
    (hds : placed p ds ⊆ placed .start source.toList) : cs = ds := by
  induction cs generalizing p ds with
  | nil => exact (List.length_eq_zero_iff.mp hlength.symm).symm
  | cons c cs ih =>
    cases ds with
    | nil => cases hlength
    | cons d ds =>
      obtain ⟨hc, hcs⟩ := List.cons_subset.mp hcs
      obtain ⟨hd, hds⟩ := List.cons_subset.mp hds
      -- a place holds one character only
      obtain rfl : c = d := by
        by_contra hne
        have : Std.Symm fun x y : Position × Char => x.1 ≠ y.1 := ⟨fun _ _ h => h.symm⟩
        exact (pairwise_placed .start source.toList).forall hc hd
          (fun heq => hne (congrArg Prod.snd heq)) rfl
      exact congrArg (c :: ·) (ih (Nat.succ.inj hlength) hcs hds)

theorem Piece.eq_of_chars {piece piece' : Piece} (h : piece.lowerCase = piece'.lowerCase)
    (hchars : piece.chars = piece'.chars) : piece = piece' := by
  cases piece with
  | word k w =>
    cases piece' with
    | word k' w' =>
      obtain ⟨rfl, -⟩ := Piece.word.inj h
      rw [String.toList_inj.mp hchars]
    | _ => cases h
  | blank c =>
    cases piece' with
    | blank d =>
      cases hchars
      rfl
    | _ => cases h
  | stray c =>
    cases piece' with
    | stray d =>
      cases hchars
      rfl
    | _ => cases h

section Recased

variable {a b : String} {ts ts' rest rest' : List Token}

/-- Texts that differ in the case of keywords have the same pieces at the same places, but for that
case. -/
theorem Recased.locatedPieces (h : Recased a b) :
    List.Forall₂ (fun x y => x.1 = y.1 ∧ x.2.Recased y.2) (locatedPieces a) (locatedPieces b) := by
  have hpieces : (pieces true a.toList).map Piece.lowerCase =
      (pieces true b.toList).map Piece.lowerCase := by
    have hletters := String.ofList_inj.mp h.letters
    rw [← pieces_map_toLower, hletters, pieces_map_toLower]
  have hlocated := forall₂_located hpieces .start
  refine List.forall₂_iff_zip.mpr ⟨hlocated.length_eq, fun {x y} hxy => ?_⟩
  obtain ⟨hplace, hcase⟩ := List.forall₂_zip hlocated hxy
  obtain ⟨hx, hy⟩ := List.of_mem_zip hxy
  refine ⟨hplace, ?_⟩
  obtain ⟨q, piece⟩ := x
  obtain ⟨q', piece'⟩ := y
  obtain rfl : q = q' := hplace
  by_cases hkeyword : ∃ k w, piece = .word k w ∧ k.isKeyword = true
  · obtain ⟨k, w, rfl, hk⟩ := hkeyword
    cases piece' with
    | word k' w' =>
      obtain ⟨rfl, hw⟩ := Piece.word.inj hcase
      exact .keyword (keyword?_of_isPiece (isPiece_of_mem_located hx) hk) hw
    | _ => cases hcase
  -- outside of keywords the other text has every character of this one
  · have hchars : piece.chars = piece'.chars := by
      have hlength := congrArg (fun p : Piece => p.chars.length) hcase
      simp only [Piece.chars_lowerCase, List.length_map] at hlength
      have hmine : placed q piece.chars ⊆ placed .start b.toList := by
        intro z hz
        refine h.outside z ?_ fun hz' => hkeyword (isKeyword_of_mem hx hz hz')
        rw [placed_source]
        exact List.mem_flatMap.mpr ⟨_, hx, hz⟩
      have hother : placed q piece'.chars ⊆ placed .start b.toList := by
        intro z hz
        rw [placed_source]
        exact List.mem_flatMap.mpr ⟨_, hy, hz⟩
      exact eq_of_placed_subset hlength hmine hother
    obtain rfl := Piece.eq_of_chars hcase hchars
    exact .same piece

/-! ### Their words and what is reported -/

/-- The tokens stand at one place and are the same, but that a keyword may be written in another
case. -/
def Token.Recased (t t' : Token) : Prop :=
  t.position = t'.position ∧ (Piece.word t.kind t.lexeme).Recased (.word t'.kind t'.lexeme)

/-- The diagnostics are the same, but that a keyword may be named in another case. -/
inductive Diagnostic.Recased : Diagnostic → Diagnostic → Prop
  | same (d : Diagnostic) : Recased d d
  | keyword {w w' : String} {p : Position} (hkeyword : (Kind.keyword? w).isSome = true)
      (hcase : lowerCase w = lowerCase w') : Recased ⟨.unexpected w, p⟩ ⟨.unexpected w', p⟩

theorem Recased.tokens (h : Recased a b) :
    List.Forall₂ Token.Recased (tokens a) (tokens b) := by
  rw [tokens_eq, tokens_eq]
  refine List.rel_filterMap ?_ h.locatedPieces
  rintro ⟨q, piece⟩ ⟨q', piece'⟩ ⟨hplace, hpiece⟩
  obtain rfl : q = q' := hplace
  cases hpiece with
  | same =>
    cases piece with
    | word k w => exact .some ⟨rfl, .same _⟩
    | blank | stray => exact .none
  | keyword hk hw => exact .some ⟨rfl, .keyword hk hw⟩

theorem Recased.strays (h : Recased a b) : strays a = strays b := by
  rw [strays_eq_filterMap, strays_eq_filterMap, ← List.forall₂_eq_eq_eq]
  refine List.rel_filterMap ?_ h.locatedPieces
  rintro ⟨q, piece⟩ ⟨q', piece'⟩ ⟨hplace, hpiece⟩
  obtain rfl : q = q' := hplace
  cases hpiece with
  | same =>
    cases piece with
    | stray c => exact .some rfl
    | blank | word => exact .none
  | keyword => exact .none

theorem alike_of_recased (h : List.Forall₂ Token.Recased ts ts') :
    Alike Token.Recased ts ts' := by
  induction h with
  | nil => exact .nil
  | @cons t t' ts ts' ht _ ih =>
    obtain ⟨k, w, p⟩ := t
    obtain ⟨k', w', p'⟩ := t'
    obtain ⟨hplace, hpiece⟩ := ht
    obtain rfl : p = p' := hplace
    cases hpiece with
    | same => exact .cons ⟨rfl, .same _⟩ (fun _ => rfl) ih
    | keyword hk hw =>
      refine .cons ⟨rfl, .keyword hk hw⟩ (fun hspelled => ?_) ih
      have hkeyword := isKeyword_of_keyword? hk
      rcases hspelled with rfl | rfl <;> cases hkeyword

theorem Alike.map_position (h : Alike Token.Recased ts ts') :
    ts.map Token.position = ts'.map Token.position := by
  induction h with
  | nil => rfl
  | cons ht _ _ ih => rw [List.map_cons, List.map_cons, ht.1, ih]

namespace Rendition

theorem recased_stopped (hts : Alike Token.Recased ts ts')
    (hrest : Alike Token.Recased rest rest') : (stopped ts rest).Recased (stopped ts' rest') := by
  cases hrest with
  | nil =>
    rw [stopped, stopped, ← List.getLast?_map, hts.map_position, List.getLast?_map]
    exact .same _
  | cons ht _ _ =>
    obtain ⟨hplace, hpiece⟩ := ht
    cases hplace
    cases hpiece with
    | same => exact .same _
    | keyword hk hw => exact .keyword (Option.isSome_of_eq_some hk) hw

/-- Texts that differ in the case of letters in keywords become the same code, and the same problems
are reported, one by one at the same places; where a keyword is named, it is named as it is written.
-/
theorem ofText_recased (h : Recased a b) :
    (ofText b).code = (ofText a).code ∧
      List.Forall₂ Diagnostic.Recased (ofText a).diagnostics (ofText b).diagnostics := by
  have htokens := alike_of_recased h.tokens
  obtain ⟨hstatements, hstops⟩ := readProgram_agrees htokens
  unfold ofText ofTokens
  dsimp only
  rw [h.strays, hstatements]
  refine ⟨rfl, List.rel_append (List.forall₂_same.mpr fun d _ => .same d) ?_⟩
  rw [List.forall₂_map_left_iff, List.forall₂_map_right_iff]
  exact hstops.imp fun _ _ => recased_stopped htokens

/-- A keyword stands where another one is awaited, and it is named as it is written. A name that
only begins like a keyword is the same in both texts. -/
theorem ofText_recased_until :
    let a := "if not x in s then ends <- 1 until $ endif"
    let b := "IF Not x iN s theN ends <- 1 unTil $ EndIf"
    Recased a b ∧ (ofText b).code = (ofText a).code ∧
      List.Forall₂ Diagnostic.Recased
        [⟨.illegal '$', ⟨1, 35⟩⟩, ⟨.unexpected "until", ⟨1, 29⟩⟩]
        [⟨.illegal '$', ⟨1, 35⟩⟩, ⟨.unexpected "unTil", ⟨1, 29⟩⟩] := by
  intro a b
  have h : Recased a b := ⟨by decide +kernel, by decide +kernel⟩
  obtain ⟨hcode, hdiagnostics⟩ := ofText_recased h
  have ha : (ofText a).diagnostics =
      [⟨.illegal '$', ⟨1, 35⟩⟩, ⟨.unexpected "until", ⟨1, 29⟩⟩] := by decide +kernel
  have hb : (ofText b).diagnostics =
      [⟨.illegal '$', ⟨1, 35⟩⟩, ⟨.unexpected "unTil", ⟨1, 29⟩⟩] := by decide +kernel
  rw [ha, hb] at hdiagnostics
  exact ⟨h, hcode, hdiagnostics⟩

end Rendition

end Recased

end Growth.Pseudo
