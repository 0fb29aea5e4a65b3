import Growth.Proofs.Pseudo.Stops
import Growth.Proofs.Rendition.Strays

/-! The order of what is reported about a text. First come the characters that begin no word, one behind
the other; then the errors in the order of the words, none of them before another that is reported
earlier. Each error stands at a word of the text. -/

namespace Growth

namespace Position

/-- Behind a text that is not empty is a later place. -/
theorem before_after (p : Position) {cs : List Char} (h : cs ≠ []) : p.Before (p.after cs) := by
  induction cs generalizing p with
  | nil => exact absurd rfl h
  | cons c cs ih =>
    have hstep := p.before_step c
    cases cs with
    | nil => exact hstep
    | cons d cs => exact hstep.trans (ih (p.step c) (List.cons_ne_nil d cs))

theorem not_before_origin {p q : Position} (h : p.Before q) : q ≠ ⟨0, 0⟩ := by
  rintro rfl
  rcases h with h | ⟨-, h⟩
  · exact Nat.not_lt_zero _ h
  · exact Nat.not_lt_zero _ h

end Position

namespace Pseudo

/-! ### Places of words and strays -/

/-- No piece of a text is empty. -/
theorem chars_ne_nil_of_mem {operand : Bool} {cs : List Char} {piece : Piece}
    (h : piece ∈ pieces operand cs) : piece.chars ≠ [] := by
  cases isPiece_of_mem h with
  | blank | stray => exact List.cons_ne_nil _ []
  | word =>
    rw [Piece.chars, String.toList_ofList]
    exact List.cons_ne_nil _ _

section Located

variable {ps : List Piece}

theorem le_of_mem_located (hps : ∀ piece ∈ ps, piece.chars ≠ []) {p : Position}
    {x : Position × Piece} (h : x ∈ located p ps) : x.1 = p ∨ p.Before x.1 := by
  induction ps generalizing p with
  | nil => cases h
  | cons piece ps ih =>
    obtain ⟨hpiece, hps⟩ := List.forall_mem_cons.mp hps
    rcases List.mem_cons.mp h with rfl | h
    · exact .inl rfl
    · have hafter := p.before_after hpiece
      rcases ih hps h with hx | hx
      · exact .inr (hx ▸ hafter)
      · exact .inr (hafter.trans hx)

/-- Pieces stand one behind the other. -/
theorem pairwise_located (hps : ∀ piece ∈ ps, piece.chars ≠ []) (p : Position) :
    (located p ps).Pairwise fun x y => x.1.Before y.1 := by
  induction ps generalizing p with
  | nil => exact .nil
  | cons piece ps ih =>
    obtain ⟨hpiece, hps⟩ := List.forall_mem_cons.mp hps
    refine .cons (fun x hx => ?_) (ih hps (p.after piece.chars))
    have hafter := p.before_after hpiece
    rcases le_of_mem_located hps hx with hx | hx
    · exact hx ▸ hafter
    · exact hafter.trans hx

end Located

/-- So does what is found in the pieces, if it has their places. -/
theorem pairwise_found {α : Type} {f : Position × Piece → Option α} {place : α → Position}
    (hf : ∀ p piece, ∀ x ∈ f (p, piece), place x = p) (source : String) :
    ((locatedPieces source).filterMap f).Pairwise fun x y => (place x).Before (place y) := by
  refine List.pairwise_filterMap.mpr ?_
  refine (pairwise_located (fun _ => chars_ne_nil_of_mem) .start).imp ?_
  intro a b hab x hx y hy
  rw [hf a.1 a.2 x hx, hf b.1 b.2 y hy]
  exact hab

theorem pairwise_tokens (source : String) :
    (tokens source).Pairwise fun t t' => t.position.Before t'.position := by
  refine pairwise_found (fun p piece t ht => ?_) source
  cases piece with
  | word kind lexeme =>
    cases ht
    rfl
  | blank | stray => cases ht

theorem pairwise_strays (source : String) :
    (strays source).Pairwise fun d e => d.position.Before e.position := by
  refine pairwise_found (fun p piece d hd => ?_) source
  cases piece with
  | stray c =>
    cases hd
    rfl
  | blank | word => cases hd

theorem position_ne_of_mem_tokens {source : String} {t : Token} (h : t ∈ tokens source) :
    t.position ≠ ⟨0, 0⟩ := by
  obtain ⟨⟨p, piece⟩, hmem, ht⟩ := List.mem_filterMap.mp h
  have hplace : t.position = p := by
    cases piece with
    | word kind lexeme =>
      cases ht
      rfl
    | blank | stray => cases ht
  rw [hplace]
  rcases le_of_mem_located (fun _ => chars_ne_nil_of_mem) hmem with hp | hp
  · intro hzero
    exact absurd (hp.symm.trans hzero) (by decide)
  · exact Position.not_before_origin hp

namespace Rendition

/-! ### Errors -/

/-- The diagnostic stands at a word of the text: at the word that it names, or at the last one if it
names the end of the text. It stands nowhere only if there are no words. -/
inductive StandsIn (ts : List Token) : Diagnostic → Prop
  | word {t : Token} (h : t ∈ ts) : StandsIn ts ⟨.unexpected t.lexeme, t.position⟩
  | ending {t : Token} (h : ts.getLast? = some t) : StandsIn ts ⟨.unexpectedEnd, t.position⟩
  | nowhere (h : ts = []) : StandsIn ts ⟨.unexpectedEnd, ⟨0, 0⟩⟩

section Stopped

variable {ts a b : List Token}

theorem standsIn_stopped (h : a <:+ ts) : StandsIn ts (stopped ts a) := by
  cases a with
  | cons t rest => exact .word (h.subset (List.mem_cons_self ..))
  | nil =>
    cases hlast : ts.getLast? with
    | none =>
      have hstop : stopped ts [] = ⟨.unexpectedEnd, ⟨0, 0⟩⟩ := by rw [stopped, hlast]; rfl
      rw [hstop]
      exact .nowhere (List.getLast?_eq_none_iff.mp hlast)
    | some t =>
      have hstop : stopped ts [] = ⟨.unexpectedEnd, t.position⟩ := by rw [stopped, hlast]; rfl
      rw [hstop]
      exact .ending hlast

/-- An error with less left stands no earlier. -/
theorem stopped_le (hts : ts.Pairwise fun t t' => t.position.Before t'.position) (ha : a <:+ ts)
    (hb : b <:+ a) : (stopped ts a).position = (stopped ts b).position ∨
      (stopped ts a).position.Before (stopped ts b).position := by
  cases a with
  | nil =>
    rw [List.suffix_nil.mp hb]
    exact .inl rfl
  | cons t rest =>
    obtain ⟨hrest, -⟩ := List.pairwise_cons.mp (hts.sublist ha.sublist)
    cases b with
    | nil =>
      -- the end of the text has the place of the last word, which may be the first that is left
      obtain ⟨front, rfl⟩ := ha
      have hlast : (stopped (front ++ t :: rest) []).position =
          ((t :: rest).getLast (List.cons_ne_nil t rest)).position := by
        simp [stopped, List.getLast?_eq_some_getLast]
      rw [hlast]
      rcases List.mem_cons.mp (List.getLast_mem (List.cons_ne_nil t rest)) with heq | hmem
      · exact .inl (congrArg Token.position heq.symm)
      · exact .inr (hrest _ hmem)
    | cons t' rest' =>
      rcases List.suffix_cons_iff.mp hb with heq | hb
      · cases heq
        exact .inl rfl
      · exact .inr (hrest t' (hb.subset (List.mem_cons_self ..)))

end Stopped

/-- What is wrong with the words comes first, at places further and further on; then what is wrong with
their order, at places that never go back. Each error in the order stands at the word that it names,
or at the last word of the text; only a text without words has none to stand at. -/
theorem diagnostics_inOrder (source : String) :
    (ofText source).diagnostics = (ofText source).lexical ++ (ofText source).syntactic ∧
    ((ofText source).lexical.Pairwise fun d e => d.position.Before e.position) ∧
    ((ofText source).syntactic.Pairwise fun d e =>
      d.position = e.position ∨ d.position.Before e.position) ∧
    ∀ d ∈ (ofText source).syntactic, StandsIn (tokens source) d ∧
      (d.position = ⟨0, 0⟩ ↔ tokens source = []) := by
  have hdescends := readProgram_descends (tokens source)
  refine ⟨diagnostics_eq source, ?_, ?_, fun d hd => ?_⟩
  · rw [lexical_ofText]
    exact pairwise_strays source
  · rw [syntactic_ofText]
    refine List.pairwise_map.mpr (hdescends.pairwise.imp_of_mem fun ha _ hab => ?_)
    exact stopped_le (pairwise_tokens source) (hdescends.suffix_of_mem ha) hab
  · rw [syntactic_ofText] at hd
    obtain ⟨stop, hstop, rfl⟩ := List.mem_map.mp hd
    have hstands := standsIn_stopped (hdescends.suffix_of_mem hstop)
    refine ⟨hstands, ?_⟩
    generalize stopped (tokens source) stop = d at hstands
    cases hstands with
    | word h =>
      exact iff_of_false (position_ne_of_mem_tokens h) (List.ne_nil_of_mem h)
    | ending h =>
      have hmem := List.mem_of_getLast? h
      exact iff_of_false (position_ne_of_mem_tokens hmem) (List.ne_nil_of_mem hmem)
    | nowhere h => exact iff_of_true rfl h

/-- The assignment is not finished, and so neither is the loop that it stands in: both errors stand at
the last word. -/
theorem diagnostics_inOrder_unfinished :
    (ofText "repeat $ x").syntactic =
        [⟨.unexpectedEnd, ⟨1, 9⟩⟩, ⟨.unexpectedEnd, ⟨1, 9⟩⟩] ∧
      StandsIn (tokens "repeat $ x") ⟨.unexpectedEnd, ⟨1, 9⟩⟩ := by
  have hsyntactic : (ofText "repeat $ x").syntactic =
      [⟨.unexpectedEnd, ⟨1, 9⟩⟩, ⟨.unexpectedEnd, ⟨1, 9⟩⟩] := by decide +kernel
  obtain ⟨-, -, -, hstands⟩ := diagnostics_inOrder "repeat $ x"
  rw [hsyntactic] at hstands
  exact ⟨hsyntactic, (hstands _ (List.mem_cons_self ..)).1⟩

end Rendition

end Pseudo

end Growth
