import Growth.Proofs.Pseudo.SoundCalc
import Growth.Pseudo.ReadStatement

/-! Statements are read from their own words. Where errors were stepped over, their words are among
the words of the text, in order; where there were none, they are all of the words. -/

namespace Growth.Pseudo

open Reading

section Headers

theorem readTarget_spells (name : String) (ts : List Token) :
    (readTarget name ts).Spells fun target ws => (.name, name) :: ws = target.words := by
  unfold readTarget
  split
  · refine Spells.past ?_
    split
    · refine Spells.past ?_
      refine (expect_spells .closeBracket _).map fun t ws ht => ?_
      rw [ht.2, Token.word_of_kind ht.1 (by simp) (by simp)]
      rfl
    · refine Spells.past ?_
      refine (expect_spells .closeBracket _).map fun t ws ht => ?_
      rw [ht.2, Token.word_of_kind ht.1 (by simp) (by simp)]
      rfl
    · exact Spells.stuck
  · exact Spells.done rfl

/-- `s` has the words `ws` and is grouped. -/
structure Statement.Made (s : Statement) (ws : List Word) : Prop where
  words : ws = s.words
  grouped : s.Grouped

theorem readAssignment_spells (name : String) (ts : List Token) :
    (readAssignment name ts).Spells fun s ws => s.Made ((.name, name) :: ws) ∧ s.Full := by
  refine (readTarget_spells name ts).bind fun target ws rest _ ht => ?_
  refine (expect_spells .arrow rest).bind fun t ws' rest' _ ha => ?_
  refine (readCalc_spells rest').map fun value ws'' hv => ⟨⟨?_, hv.grouped⟩, trivial⟩
  rw [ha.2, Token.word_of_kind ha.1 nofun nofun, hv.words, Statement.words, ← ht]
  rfl

/-- Whether `ts` begins with a word that begins a calculation. -/
def startsValue : List Token → Bool
  | ⟨.number, _, _⟩ :: _ | ⟨.name, _, _⟩ :: _ | ⟨.openParen, _, _⟩ :: _
  | ⟨.openBrace, _, _⟩ :: _ | ⟨.openBracket, _, _⟩ :: _ => true
  | _ => false

theorem readResult_eq (ts : List Token) :
    readResult ts = if startsValue ts && !startsAssignment ts then
      (readCalc ts).map fun value => .result (some value)
    else .done (.result none) ts (List.suffix_refl _) := rfl

theorem readResult_spells (ts : List Token) :
    (readResult ts).Spells fun s ws => s.Made (Kind.returnKw.word :: ws) ∧ s.Full := by
  rw [readResult_eq]
  split
  · refine (readCalc_spells ts).map fun value ws hv => ⟨⟨?_, hv.grouped⟩, trivial⟩
    rw [hv.words]
    rfl
  · exact Spells.done ⟨⟨rfl, trivial⟩, trivial⟩

theorem readParametersTail_spells (ts : List Token) :
    (readParametersTail ts).Spells fun ps ws =>
      ps ≠ [] ∧ ws = parameterWords ps ++ [Kind.closeParen.word] := by
  rw [readParametersTail.eq_def]
  split
  · refine Spells.past <| Spells.past ?_
    refine (readParametersTail_spells _).map fun ps ws hps => ⟨by simp, ?_⟩
    rw [hps.2, parameterWords, if_neg (by simpa using hps.1)]
    rfl
  · refine Spells.past ?_
    refine (expect_spells .closeParen _).map fun t ws ht => ⟨by simp, ?_⟩
    rw [ht.2, Token.word_of_kind ht.1 (by simp) (by simp)]
    rfl
  · exact Spells.stuck
termination_by ts.length

theorem readParameters_spells (ts : List Token) :
    (readParameters ts).Spells fun ps ws => ws = parameterWords ps ++ [Kind.closeParen.word] := by
  unfold readParameters
  split
  · rintro v rest ⟨⟩
    exact ⟨[_], rfl, rfl⟩
  · exact (readParametersTail_spells ts).mono fun _ _ h => h.2

theorem readSignature_spells (ts : List Token) :
    (readSignature ts).Spells fun p ws =>
      ws = (.name, p.1) :: Kind.openParen.word :: parameterWords p.2 ++ [Kind.closeParen.word] := by
  refine (expect_spells .name ts).bind fun name ws rest _ hn => ?_
  refine (expect_spells .openParen rest).bind fun t ws' rest' _ ht => ?_
  refine (readParameters_spells rest').map fun ps ws'' hps => ?_
  rw [hn.2, ht.2, Token.word_of_kind ht.1 nofun nofun, hps]
  simp [Token.word, hn.1]

/-- `s` has the words `ws` and is grouped. -/
structure Source.Made (s : Source) (ws : List Word) : Prop where
  words : ws = s.words
  grouped : s.Grouped

theorem readSource_spells (ts : List Token) : (readSource ts).Spells Source.Made := by
  refine (readCalc_spells ts).bind fun first ws rest _ hf => ?_
  split
  · refine Spells.past ?_
    refine (readCalc_spells _).bind fun last ws' rest' _ hl => ?_
    split
    · refine Spells.past ?_
      refine (readCalc_spells _).map fun step ws'' hs =>
        ⟨?_, hf.grouped, hl.grouped, hs.grouped⟩
      rw [hf.words, hl.words, hs.words, Source.words, List.append_assoc]
      rfl
    · refine Spells.done ⟨?_, hf.grouped, hl.grouped⟩
      rw [hf.words, hl.words, List.append_nil]
      rfl
  · refine Spells.done ⟨?_, hf.grouped⟩
    rw [hf.words, List.append_nil]
    rfl

theorem readEach_spells (ts : List Token) :
    (readEach ts).Spells fun p ws => p.2.Grouped ∧
      ws = (.name, p.1) :: Kind.inKw.word :: p.2.words ++ [Kind.doKw.word] := by
  refine (expect_spells .name ts).bind fun counter ws rest _ hn => ?_
  refine (expect_spells .inKw rest).bind fun t ws' rest' _ ht => ?_
  refine (readSource_spells rest').bind fun source ws'' rest'' _ hs => ?_
  refine (expect_spells .doKw rest'').map fun t' ws''' ht' => ⟨hs.grouped, ?_⟩
  rw [hn.2, ht.2, ht'.2, Token.word_of_kind ht.1 nofun nofun,
    Token.word_of_kind ht'.1 nofun nofun, hs.words]
  simp [Token.word, hn.1]

theorem readTest_spells (ts : List Token) :
    (readTest ts).Spells fun c ws => c.Grouped ∧ ws = c.words ++ [Kind.thenKw.word] := by
  refine (readCondition_spells ts).bind fun c ws rest _ hc => ?_
  refine (expect_spells .thenKw rest).map fun t ws' ht => ⟨hc.grouped, ?_⟩
  rw [ht.2, Token.word_of_kind ht.1 nofun nofun, hc.words]

end Headers

namespace Attempt

variable {α β : Type} {ts : List Token}

/-- Every value has the property `P` together with words that are among those taken for it, in
order. Without errors on the way they are all that was taken, and the value has the property
`F`. -/
def Spells (a : Attempt α ts) (P : α → List Word → Prop) (F : α → Prop) : Prop :=
  ∀ v rest, a.reading.value? = some (v, rest) → ∃ taken ws,
    ts.map Token.word = taken ++ rest.map Token.word ∧ ws.Sublist taken ∧ P v ws ∧
      (a.stops = [] → ws = taken ∧ F v)

variable {P : α → List Word → Prop} {Q : β → List Word → Prop} {F : α → Prop} {G : β → Prop}

theorem Spells.ofReading {r : Reading α ts} (h : r.Spells fun v ws => P v ws ∧ F v) :
    (Attempt.ofReading r).Spells P F := by
  intro v rest hv
  obtain ⟨ws, hws, hp, hf⟩ := h v rest hv
  exact ⟨ws, ws, hws, List.Sublist.refl ws, hp, fun _ => ⟨rfl, hf⟩⟩

theorem Spells.past {t : Token} {a : Attempt α ts}
    (h : a.Spells (fun v ws => P v (t.word :: ws)) F) : (a.past t).Spells P F := by
  intro v rest hv
  obtain ⟨taken, ws, htaken, hsub, hp, hf⟩ := h v rest (by simpa [Attempt.past] using hv)
  refine ⟨t.word :: taken, t.word :: ws, by simp [htaken], hsub.cons_cons _, hp, fun hs => ?_⟩
  exact ⟨by rw [(hf hs).1], (hf hs).2⟩

theorem Spells.bind {a : Attempt α ts}
    {next : α → (rest : List Token) → rest <:+ ts → Attempt β rest} (ha : a.Spells P F)
    (h : ∀ v ws rest hrest, P v ws →
      (next v rest hrest).Spells (fun b ws' => Q b (ws ++ ws')) fun b => F v → G b) :
    (a.bind next).Spells Q G := by
  intro b rest hb
  obtain ⟨stops, r⟩ := a
  cases r with
  | stuck => exact nomatch hb
  | done v rest' h' =>
    obtain ⟨taken, ws, htaken, hsub, hp, hf⟩ := ha v rest' rfl
    obtain ⟨taken', ws', htaken', hsub', hq, hg⟩ :=
      h v ws rest' h' hp b rest (by simpa [Attempt.bind] using hb)
    refine ⟨taken ++ taken', ws ++ ws', by rw [htaken, htaken', List.append_assoc],
      hsub.append hsub', hq, fun hs => ?_⟩
    obtain ⟨hs1, hs2⟩ := List.append_eq_nil_iff.mp hs
    exact ⟨by rw [(hf hs1).1, (hg hs2).1], (hg hs2).2 (hf hs1).2⟩

end Attempt

/-- The block's statements are grouped, and their words are among those taken for it, in order.
Without errors they are all that was taken, and no block of them is empty. After the block comes
the end or a word that is awaited. -/
structure Block.Made {ts : List Token} (awaited : List Kind) (b : Block ts) : Prop where
  spells : ∃ taken, ts.map Token.word = taken ++ b.rest.map Token.word ∧
    (Statement.wordsOf b.statements).Sublist taken ∧
    (b.stops = [] → Statement.wordsOf b.statements = taken ∧ Statement.AllFull b.statements)
  grouped : Statement.AllGrouped b.statements
  stopped : ∀ t ∈ b.rest.head?, t.kind ∈ awaited

theorem Block.Made.empty {awaited : List Kind} {ts : List Token}
    (h : ∀ t ∈ ts.head?, t.kind ∈ awaited) : (Block.empty ts).Made awaited :=
  ⟨⟨[], rfl, List.Sublist.refl _, fun _ => ⟨rfl, trivial⟩⟩, trivial, h⟩

/-- Errors before a block add to what was taken, and to no statement. -/
theorem Block.Made.skip {awaited : List Kind} {ts rest : List Token} {b : Block rest}
    (hb : b.Made awaited) {b' : Block ts} (h : rest <:+ ts) (hs : b'.statements = b.statements)
    (hr : b'.rest = b.rest) (hne : b'.stops ≠ []) : b'.Made awaited := by
  obtain ⟨pre, rfl⟩ := h
  obtain ⟨taken, htaken, hsub, -⟩ := hb.spells
  refine ⟨⟨pre.map Token.word ++ taken, ?_, ?_, fun h => absurd h hne⟩, ?_, ?_⟩
  · rw [List.map_append, htaken, hr, List.append_assoc]
  · rw [hs]
    exact hsub.trans (List.sublist_append_right _ _)
  · rw [hs]
    exact hb.grouped
  · rw [hr]
    exact hb.stopped

theorem Block.Made.cons {awaited : List Kind} {t : Token} {ts rest : List Token} {s : Statement}
    {a : Attempt Statement ts} (ha : a.Spells (fun s ws => s.Made (t.word :: ws)) Statement.Full)
    (hv : a.reading.value? = some (s, rest)) {b : Block rest} (hb : b.Made awaited)
    {b' : Block (t :: ts)} (hs : b'.statements = s :: b.statements)
    (he : b'.stops = a.stops ++ b.stops) (hr : b'.rest = b.rest) : b'.Made awaited := by
  obtain ⟨taken, ws, htaken, hsub, hmade, hfull⟩ := ha s rest hv
  obtain ⟨taken', htaken', hsub', hfull'⟩ := hb.spells
  have hwords : Statement.wordsOf b'.statements =
      (t.word :: ws) ++ Statement.wordsOf b.statements := by
    rw [hs, Statement.wordsOf, hmade.words]
  refine ⟨⟨t.word :: taken ++ taken', ?_, ?_, fun h => ?_⟩, ?_, ?_⟩
  · rw [List.map_cons, htaken, htaken', hr]
    simp
  · rw [hwords]
    exact (hsub.cons_cons _).append hsub'
  · obtain ⟨h1, h2⟩ := List.append_eq_nil_iff.mp (he ▸ h)
    rw [hwords, (hfull h1).1, (hfull' h2).1, hs]
    exact ⟨rfl, (hfull h1).2, (hfull' h2).2⟩
  · rw [hs]
    exact ⟨hmade.grouped, hb.grouped⟩
  · rw [hr]
    exact hb.stopped

theorem Block.Made.body {awaited : List Kind} {ts : List Token} {b : Block ts}
    (hb : b.Made awaited) :
    b.body.Spells (fun ss ws => ws = Statement.wordsOf ss ∧ Statement.AllGrouped ss)
      fun ss => ss ≠ [] ∧ Statement.AllFull ss := by
  intro ss rest hss
  unfold Block.body at hss ⊢
  split at hss
  · exact nomatch hss
  · rename_i hne
    cases hss
    rw [if_neg hne]
    obtain ⟨taken, htaken, hsub, hfull⟩ := hb.spells
    refine ⟨taken, _, htaken, hsub, ⟨rfl, hb.grouped⟩, fun hs => ⟨(hfull hs).1, ?_, (hfull hs).2⟩⟩
    intro he
    exact hne (by simp [he, show b.stops = [] from hs])

mutual

theorem readStatements_made (awaited : List Kind) (ts : List Token) :
    (readStatements awaited ts).Made awaited := by
  rw [readStatements.eq_def]
  split
  · exact .empty nofun
  · rename_i t rest
    split
    · rename_i ht
      exact .empty (by simpa using ht)
    · split
      · exact (readStatements_made awaited (resume rest).1).skip
          ((resume rest).2.trans (List.suffix_cons t rest)) rfl rfl nofun
      · rename_i stops s rest' h hread
        exact Block.Made.cons (readStatement_spells awaited t rest _ hread) rfl
          (readStatements_made awaited rest') rfl rfl rfl
      · rename_i stops rest' h hread
        exact (readStatements_made awaited (recover awaited rest').1).skip
          ((recover awaited rest').2.trans (h.trans (List.suffix_cons t rest))) rfl rfl (by simp)
termination_by 3 * ts.length
decreasing_by all_goals grind [→ List.IsSuffix.length_le]

theorem readStatement_spells (awaited : List Kind) (t : Token) (ts : List Token)
    (a : Attempt Statement ts) (h : readStatement awaited t ts = some a) :
    a.Spells (fun s ws => s.Made (t.word :: ws)) Statement.Full := by
  rw [readStatement] at h
  split at h
  · rename_i hk
    cases h
    have ht : t.word = (.name, t.lexeme) := by simp [Token.word, hk]
    exact .ofReading (ht ▸ readAssignment_spells t.lexeme ts)
  · rename_i hk
    cases h
    exact .ofReading (Token.word_of_kind hk nofun nofun ▸ readResult_spells ts)
  · rename_i hk
    cases h
    rw [Token.word_of_kind hk nofun nofun]
    refine Attempt.Spells.bind (F := fun _ => True)
      (.ofReading ((readTest_spells ts).mono fun _ _ h => ⟨h, trivial⟩))
      fun c ws rest _ hc => ?_
    refine (readBody_spells awaited [.elseKw, .endIf] rest).bind fun body ws' rest1 _ hb => ?_
    split
    · rename_i rest2 _
      refine Attempt.Spells.past ?_
      refine (readBody_spells awaited [.endIf] rest2).bind fun other ws2 rest3 _ ho => ?_
      refine .ofReading ((expect_spells .endIf rest3).map fun t' ws3 ht' => ?_)
      refine ⟨⟨?_, hc.1, hb.2, ho.2⟩, fun h1 h2 _ => ⟨h2, h1⟩⟩
      rw [hc.2, hb.1, ho.1, ht'.2, Token.word_of_kind ht'.1 nofun nofun]
      simp [Statement.words, Token.word, Kind.word]
    · refine .ofReading ((expect_spells .endIf rest1).map fun t' ws2 ht' => ?_)
      refine ⟨⟨?_, hc.1, hb.2⟩, fun h _ => h⟩
      rw [hc.2, hb.1, ht'.2, Token.word_of_kind ht'.1 nofun nofun]
      simp [Statement.words, Kind.word]
  · rename_i hk
    cases h
    rw [Token.word_of_kind hk nofun nofun]
    refine Attempt.Spells.bind (F := fun _ => True)
      (.ofReading ((readEach_spells ts).mono fun _ _ h => ⟨h, trivial⟩))
      fun p ws rest _ hp => ?_
    refine (readBody_spells awaited [.endFor] rest).bind fun body ws' rest1 _ hb => ?_
    refine .ofReading ((expect_spells .endFor rest1).map fun t' ws2 ht' => ?_)
    refine ⟨⟨?_, hp.1, hb.2⟩, fun h _ => h⟩
    rw [hp.2, hb.1, ht'.2, Token.word_of_kind ht'.1 nofun nofun]
    simp [Statement.words, Kind.word]
  · rename_i hk
    cases h
    rw [Token.word_of_kind hk nofun nofun]
    refine (readBody_spells awaited [.untilKw] ts).bind fun body ws rest _ hb => ?_
    refine .ofReading ((expect_spells .untilKw rest).bind fun t' ws' rest1 _ ht' => ?_)
    refine (readCondition_spells rest1).map fun c ws2 hc => ?_
    refine ⟨⟨?_, hb.2, hc.grouped⟩, fun h => h⟩
    rw [hb.1, hc.words, ht'.2, Token.word_of_kind ht'.1 nofun nofun]
    simp [Statement.words, Kind.word]
  · rename_i hk
    cases h
    rw [Token.word_of_kind hk nofun nofun]
    refine Attempt.Spells.bind (F := fun _ => True)
      (.ofReading ((readSignature_spells ts).mono fun _ _ h => ⟨h, trivial⟩))
      fun p ws rest _ hp => ?_
    refine (readBody_spells awaited [.endProc] rest).bind fun body ws' rest1 _ hb => ?_
    refine .ofReading ((expect_spells .endProc rest1).map fun t' ws2 ht' => ?_)
    refine ⟨⟨?_, hb.2⟩, fun h _ => h⟩
    rw [hp, hb.1, ht'.2, Token.word_of_kind ht'.1 nofun nofun]
    simp [Statement.words, Kind.word]
  · exact nomatch h
termination_by 3 * ts.length + 2
decreasing_by all_goals grind [→ List.IsSuffix.length_le]

theorem readBody_spells (awaited closing : List Kind) (ts : List Token) :
    (readBody awaited closing ts).Spells
      (fun ss ws => ws = Statement.wordsOf ss ∧ Statement.AllGrouped ss)
      fun ss => ss ≠ [] ∧ Statement.AllFull ss := by
  rw [readBody]
  exact (readStatements_made (closing ++ awaited) ts).body
termination_by 3 * ts.length + 1
decreasing_by all_goals grind [→ List.IsSuffix.length_le]

end

end Growth.Pseudo
