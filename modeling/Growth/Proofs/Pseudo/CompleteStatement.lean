import Growth.Proofs.Pseudo.CompleteCondition
import Growth.Proofs.Pseudo.SoundStatement

/-! Statements are read back from their words, without errors, up to a word that is awaited. -/

namespace Growth.Pseudo

open Reading

/-! ### What may follow -/

/-- `r` is at its end, at the end of a block or at a statement. -/
def Fresh (r : List Token) : Prop :=
  ∀ t ∈ r.head?, t.kind.endsBlock = true ∨ startsStatement r = true

theorem Fresh.nil : Fresh [] := by simp [Fresh]

/-- The kinds of words that stand first where a block goes on or ends. -/
def Kind.isFresh : Kind → Bool
  | endIf | elseKw | endFor | endProc | untilKw => true
  | ifKw | forKw | repeatKw | procedureKw | returnKw | name => true
  | _ => false

theorem Kind.isFresh_of_endsBlock {k : Kind} (h : k.endsBlock = true) : k.isFresh = true := by
  cases k <;> first | rfl | exact nomatch h

theorem isFresh_of_startsAssignment {t : Token} {r : List Token}
    (h : startsAssignment (t :: r) = true) : t.kind.isFresh = true := by
  unfold startsAssignment at h
  split at h
  · rename_i heq
    cases heq
    rfl
  · rename_i heq
    cases heq
    rfl
  · exact nomatch h

theorem isFresh_of_startsStatement {t : Token} {r : List Token}
    (h : startsStatement (t :: r) = true) : t.kind.isFresh = true := by
  unfold startsStatement at h
  split at h
  all_goals first
    | rename_i heq; cases heq; rfl
    | exact isFresh_of_startsAssignment h

theorem Fresh.isFresh {r : List Token} (h : Fresh r) : ∀ t ∈ r.head?, t.kind.isFresh = true := by
  rintro t ht
  cases r with
  | nil => exact nomatch ht
  | cons t' r =>
    cases ht
    rcases h t rfl with h | h
    · exact Kind.isFresh_of_endsBlock h
    · exact isFresh_of_startsStatement h

theorem Kind.isFresh.not_continues {k : Kind} (h : k.isFresh = true) : k.continues = false := by
  cases k <;> first | rfl | exact nomatch h

theorem Fresh.closed {r : List Token} (h : Fresh r) : Closed r :=
  fun t ht => Kind.isFresh.not_continues (h.isFresh t ht)

theorem Fresh.not_joined {r : List Token} (h : Fresh r) :
    ∀ t ∈ r.head?, t.kind ≠ .andKw ∧ t.kind ≠ .orKw := by
  intro t ht
  have := h.isFresh t ht
  constructor <;> (intro hk; rw [hk] at this; exact nomatch this)

/-! ### Results -/

/-- What begins an assignment is read as a calculation up to the arrow only. -/
theorem readCalc_of_startsAssignment {ts : List Token} (h : startsAssignment ts = true) :
    ∃ c lexeme position rest, (readCalc ts).value? = some (c, ⟨.arrow, lexeme, position⟩ :: rest) := by
  unfold startsAssignment at h
  split at h
  · rename_i n p lexeme position rest
    refine ⟨.name n, lexeme, position, rest, ?_⟩
    have hwords : [(⟨.name, n, p⟩ : Token)].map Token.word = (Calc.name n).words := rfl
    exact (Calc.Grouped.readable (.name n) trivial).read hwords (calm_cons.mpr rfl)
  · rename_i n p l p' index l' p'' lexeme position rest
    obtain ⟨kind, i, pi⟩ := index
    have hk : kind = .number ∨ kind = .name := by simpa using h
    obtain rfl | rfl := hk
    · refine ⟨.item n (.number i), lexeme, position, rest, ?_⟩
      have hwords : [(⟨.name, n, p⟩ : Token), ⟨.openBracket, l, p'⟩, ⟨.number, i, pi⟩,
          ⟨.closeBracket, l', p''⟩].map Token.word = (Calc.item n (.number i)).words := rfl
      exact (Calc.Grouped.readable (.item n (.number i)) trivial).read hwords (calm_cons.mpr rfl)
    · refine ⟨.item n (.name i), lexeme, position, rest, ?_⟩
      have hwords : [(⟨.name, n, p⟩ : Token), ⟨.openBracket, l, p'⟩, ⟨.name, i, pi⟩,
          ⟨.closeBracket, l', p''⟩].map Token.word = (Calc.item n (.name i)).words := rfl
      exact (Calc.Grouped.readable (.item n (.name i)) trivial).read hwords (calm_cons.mpr rfl)
  · exact nomatch h

theorem startsValue_cons {t : Token} {r : List Token} :
    startsValue (t :: r) = t.kind.startsCalc := by
  obtain ⟨kind, lexeme, position⟩ := t
  cases kind <;> rfl

theorem readResult_none {r : List Token} (hr : Fresh r) :
    (readResult r).value? = some (.result none, r) := by
  rw [readResult_eq, if_neg]
  · rfl
  · intro h
    obtain ⟨hv, ha⟩ := Bool.and_eq_true_iff.mp h
    cases r with
    | nil => exact nomatch hv
    | cons t r =>
      obtain ⟨kind, lexeme, position⟩ := t
      have hfresh : kind.isFresh = true := hr.isFresh _ rfl
      obtain rfl : kind = .name := by
        rw [startsValue_cons] at hv
        cases kind <;> simp_all [Kind.isFresh, Kind.startsCalc]
      have hs : startsAssignment (⟨.name, lexeme, position⟩ :: r) = true :=
        (hr _ rfl).resolve_left nofun
      rw [hs] at ha
      exact nomatch ha

theorem readResult_some {value : Calc} {ts r : List Token} (hv : value.Grouped)
    (hts : ts.map Token.word = value.words) (hr : Fresh r) :
    (readResult (ts ++ r)).value? = some (.result (some value), r) := by
  have hread := (Calc.Grouped.readable value hv).read hts hr.closed.calm
  have hstarts : startsValue (ts ++ r) = true := by
    obtain ⟨w, ws, hw, hs⟩ := value.words_head
    rw [hw] at hts
    obtain ⟨t, ts', rfl, rfl, -⟩ := List.map_eq_cons_iff.mp hts
    rw [List.cons_append, startsValue_cons]
    exact hs
  have hnot : startsAssignment (ts ++ r) = false := by
    refine Bool.eq_false_iff.mpr fun h => ?_
    obtain ⟨c, lexeme, position, rest, harrow⟩ := readCalc_of_startsAssignment h
    rw [hread] at harrow
    cases harrow
    exact nomatch hr.isFresh _ rfl
  rw [readResult_eq, hstarts, hnot]
  simp [hread]

/-! ### Headers -/

theorem readAssignment_value? {target : Target} {value : Calc} {name : String} {ts r : List Token}
    (hts : (.name, name) :: ts.map Token.word = (Statement.assign target value).words)
    (hv : value.Grouped) (hr : Calm 0 r) :
    (readAssignment name (ts ++ r)).value? = some (.assign target value, r) := by
  have assigned {target' : Target} {ts' : List Token}
      (htarget : (readTarget name (ts ++ r)).value? = some (target', ts' ++ r))
      (hts' : ts'.map Token.word = Kind.arrow.word :: value.words) :
      (readAssignment name (ts ++ r)).value? = some (.assign target' value, r) := by
    obtain ⟨lexeme, position, tv, rfl, htv⟩ := tokens_cons hts'
    rw [readAssignment, value?_bind, htarget]
    simp [value?_bind, (Calc.Grouped.readable value hv).read htv hr]
  cases target with
  | name n =>
    obtain ⟨rfl, hts'⟩ : name = n ∧ ts.map Token.word = Kind.arrow.word :: value.words := by
      simpa [Statement.words, Target.words] using hts
    refine assigned ?_ hts'
    obtain ⟨lexeme, position, tv, rfl, -⟩ := tokens_cons hts'
    rfl
  | item n index =>
    obtain ⟨rfl, hts'⟩ : name = n ∧ ts.map Token.word =
        Kind.openBracket.word :: index.word :: Kind.closeBracket.word :: Kind.arrow.word ::
          value.words := by
      simpa [Statement.words, Target.words] using hts
    obtain ⟨lexeme, position, ts1, rfl, hts1⟩ := tokens_cons hts'
    cases index with
    | number i =>
      obtain ⟨position', ts2, rfl, hts2⟩ := tokens_cons_number hts1
      obtain ⟨lexeme'', position'', ts3, rfl, hts3⟩ := tokens_cons hts2
      exact assigned rfl hts3
    | name i =>
      obtain ⟨position', ts2, rfl, hts2⟩ := tokens_cons_name hts1
      obtain ⟨lexeme'', position'', ts3, rfl, hts3⟩ := tokens_cons hts2
      exact assigned rfl hts3

theorem readParametersTail_value? {ps : List String} {ts : List Token} (hne : ps ≠ [])
    (hts : ts.map Token.word = parameterWords ps ++ [Kind.closeParen.word]) (r : List Token) :
    (readParametersTail (ts ++ r)).value? = some (ps, r) := by
  induction ps generalizing ts with
  | nil => exact absurd rfl hne
  | cons p ps ih =>
    obtain ⟨position, ts', rfl, hts'⟩ := tokens_cons_name hts
    cases ps with
    | nil =>
      obtain ⟨lexeme, position', rfl⟩ := tokens_singleton hts'
      rw [List.cons_append, List.singleton_append, readParametersTail]
      · rfl
      · rintro _ _ _ ⟨⟩
    | cons p' ps =>
      obtain ⟨lexeme, position', ts'', rfl, hts''⟩ := tokens_cons hts'
      rw [List.cons_append, List.cons_append, readParametersTail, value?_past, value?_past,
        value?_map, ih nofun hts'']
      rfl

theorem readParameters_value? {ps : List String} {ts : List Token}
    (hts : ts.map Token.word = parameterWords ps ++ [Kind.closeParen.word]) (r : List Token) :
    (readParameters (ts ++ r)).value? = some (ps, r) := by
  cases ps with
  | nil =>
    obtain ⟨lexeme, position, rfl⟩ := tokens_singleton hts
    rfl
  | cons p ps =>
    have hread := readParametersTail_value? (List.cons_ne_nil p ps) hts r
    obtain ⟨position, ts', rfl, -⟩ := tokens_cons_name hts
    exact hread

theorem readSignature_value? {name : String} {ps : List String} {ts : List Token}
    (hts : ts.map Token.word =
      (.name, name) :: Kind.openParen.word :: parameterWords ps ++ [Kind.closeParen.word])
    (r : List Token) : (readSignature (ts ++ r)).value? = some ((name, ps), r) := by
  obtain ⟨position, ts', rfl, hts'⟩ := tokens_cons_name hts
  obtain ⟨lexeme, position', ts'', rfl, hts''⟩ := tokens_cons hts'
  have hread := readParameters_value? hts'' r
  rw [readSignature]
  simp [value?_bind, hread]

theorem readSource_value? {source : Source} {ts : List Token} (hs : source.Grouped)
    (hts : ts.map Token.word = source.words) {t : Token} (ht : t.kind = .doKw) (r : List Token) :
    (readSource (ts ++ t :: r)).value? = some (source, t :: r) := by
  obtain ⟨kind, lexeme, position⟩ := t
  obtain rfl : kind = .doKw := ht
  have hcalm : Calm 0 (⟨.doKw, lexeme, position⟩ :: r) := calm_cons.mpr rfl
  cases source with
  | values c =>
    rw [readSource]
    obtain ⟨_, hread⟩ := value?_bind_of_done ((Calc.Grouped.readable c hs).read hts hcalm) _
    rw [hread]
    rfl
  | interval first last =>
    obtain ⟨tf, trest, rfl, htf, htrest⟩ := List.map_eq_append_iff.mp hts
    obtain ⟨lexeme', position', tl, rfl, htl⟩ := tokens_cons htrest
    rw [readSource, List.append_assoc, List.cons_append]
    obtain ⟨_, hf⟩ := value?_bind_of_done
      ((Calc.Grouped.readable first hs.1).read htf (r := ⟨.toKw, lexeme', position'⟩ :: _)
        (calm_cons.mpr rfl)) _
    obtain ⟨_, hl⟩ := value?_bind_of_done
      ((Calc.Grouped.readable last hs.2).read htl hcalm) _
    rw [hf, value?_past, hl]
    rfl
  | steps first last step =>
    obtain ⟨tfl, trest, rfl, htfl, htrest⟩ := List.map_eq_append_iff.mp hts
    obtain ⟨tf, trest', rfl, htf, htrest'⟩ := List.map_eq_append_iff.mp htfl
    obtain ⟨lexeme', position', tl, rfl, htl⟩ := tokens_cons htrest'
    obtain ⟨lexeme'', position'', ts', rfl, hts'⟩ := tokens_cons htrest
    rw [readSource, List.append_assoc, List.append_assoc, List.cons_append, List.cons_append]
    obtain ⟨_, hf⟩ := value?_bind_of_done
      ((Calc.Grouped.readable first hs.1).read htf (r := ⟨.toKw, lexeme', position'⟩ :: _)
        (calm_cons.mpr rfl)) _
    obtain ⟨_, hl⟩ := value?_bind_of_done
      ((Calc.Grouped.readable last hs.2.1).read htl (r := ⟨.byKw, lexeme'', position''⟩ :: _)
        (calm_cons.mpr rfl)) _
    rw [hf, value?_past, hl, value?_past, value?_map,
      (Calc.Grouped.readable step hs.2.2).read hts' hcalm]
    rfl

theorem readEach_value? {counter : String} {source : Source} {ts : List Token}
    (hs : source.Grouped) (hts : ts.map Token.word =
      (.name, counter) :: Kind.inKw.word :: source.words ++ [Kind.doKw.word]) (r : List Token) :
    (readEach (ts ++ r)).value? = some ((counter, source), r) := by
  obtain ⟨position, ts1, rfl, hts1⟩ := tokens_cons_name hts
  obtain ⟨lexeme, position', ts2, rfl, hts2⟩ := tokens_cons hts1
  obtain ⟨tso, tdo, rfl, htso, htdo⟩ := List.map_eq_append_iff.mp hts2
  obtain ⟨lexeme'', position'', rfl⟩ := tokens_singleton htdo
  have hread := readSource_value? hs htso (t := ⟨.doKw, lexeme'', position''⟩) rfl r
  rw [readEach]
  simp [value?_bind, hread]

theorem readTest_value? {c : Condition} {ts : List Token} (hc : c.Settled)
    (hts : ts.map Token.word = c.words ++ [Kind.thenKw.word]) (r : List Token) :
    (readTest (ts ++ r)).value? = some (c, r) := by
  obtain ⟨tc, tthen, rfl, htc, htthen⟩ := List.map_eq_append_iff.mp hts
  obtain ⟨lexeme, position, rfl⟩ := tokens_singleton htthen
  have hread := (Condition.Settled.readable c hc).read htc
    (r := ⟨.thenKw, lexeme, position⟩ :: r) (closed_cons.mpr rfl)
    (by rintro t ⟨⟩; exact ⟨nofun, nofun⟩)
  rw [readTest, List.append_assoc, List.singleton_append, value?_bind, hread]
  simp

/-! ### Statements -/

mutual

/-- The conditions of a statement are settled and its calculations grouped. -/
def Statement.Settled : Statement → Prop
  | assign _ value => value.Grouped
  | branch condition body => condition.Settled ∧ Statement.AllSettled body
  | choice condition body other =>
    condition.Settled ∧ Statement.AllSettled body ∧ Statement.AllSettled other
  | each _ source body => source.Grouped ∧ Statement.AllSettled body
  | repetition body condition => Statement.AllSettled body ∧ condition.Settled
  | procedure _ _ body => Statement.AllSettled body
  | result none => True
  | result (some value) => value.Grouped

/-- All of the statements are settled. -/
def Statement.AllSettled : List Statement → Prop
  | [] => True
  | s :: ss => s.Settled ∧ Statement.AllSettled ss

end

/-- The attempt gives `v`, without errors, and leaves `rest`. -/
def Attempt.Gives {α : Type} {ts : List Token} (a : Attempt α ts) (v : α) (rest : List Token) :
    Prop :=
  a.stops = [] ∧ a.reading.value? = some (v, rest)

namespace Attempt.Gives

variable {α β : Type} {ts rest rest' : List Token} {v : α} {w : β}

theorem ofReading {r : Reading α ts} (h : r.value? = some (v, rest)) :
    (Attempt.ofReading r).Gives v rest :=
  ⟨rfl, h⟩

theorem past {t : Token} {a : Attempt α ts} (h : a.Gives v rest) : (a.past t).Gives v rest :=
  ⟨h.1, (value?_past t _).trans h.2⟩

theorem eq {a : Attempt α ts} (h : a.Gives v rest) : ∃ h, a = ⟨[], .done v rest h⟩ := by
  obtain ⟨stops, r⟩ := a
  obtain ⟨rfl, hr⟩ := h
  cases r with
  | stuck => exact nomatch hr
  | done v' rest' h' =>
    cases hr
    exact ⟨h', rfl⟩

theorem bind {a : Attempt α ts}
    {next : α → (rest : List Token) → rest <:+ ts → Attempt β rest} (ha : a.Gives v rest)
    (h : ∀ h, (next v rest h).Gives w rest') : (a.bind next).Gives w rest' := by
  obtain ⟨hrest, rfl⟩ := ha.eq
  obtain ⟨hstops, hread⟩ := h hrest
  exact ⟨by simpa [Attempt.bind] using hstops, by simpa [Attempt.bind] using hread⟩

end Attempt.Gives

/-- The block has the statements `ss`, without errors, and leaves `rest`. -/
structure Block.Gives {ts : List Token} (b : Block ts) (ss : List Statement) (rest : List Token) :
    Prop where
  statements : b.statements = ss
  stops : b.stops = []
  rest : b.rest = rest

theorem Block.Gives.body {ts rest : List Token} {b : Block ts} {ss : List Statement}
    (h : b.Gives ss rest) (hne : ss ≠ []) : b.body.Gives ss rest := by
  obtain ⟨statements, stops, rest', suffix⟩ := b
  obtain ⟨rfl, rfl, rfl⟩ := h
  rw [Block.body, if_neg (by simpa using hne)]
  exact ⟨rfl, rfl⟩

/-- A statement begins with a word after which reading can go on, whatever follows. -/
theorem Statement.starts (s : Statement) {ts : List Token} (hts : ts.map Token.word = s.words)
    (r : List Token) :
    ∃ t ts', ts = t :: ts' ∧ t.kind.endsBlock = false ∧ startsStatement (ts ++ r) = true := by
  cases s with
  | assign target value =>
    cases target with
    | name n =>
      obtain ⟨position, ts', rfl, hts'⟩ := tokens_cons_name hts
      obtain ⟨lexeme, position', ts'', rfl, -⟩ := tokens_cons hts'
      exact ⟨_, _, rfl, rfl, rfl⟩
    | item n index =>
      obtain ⟨position, ts1, rfl, hts1⟩ := tokens_cons_name hts
      obtain ⟨lexeme, position', ts2, rfl, hts2⟩ := tokens_cons hts1
      obtain ⟨t, ts3, rfl, ht, hts3⟩ := List.map_eq_cons_iff.mp hts2
      obtain ⟨lexeme', position'', ts4, rfl, hts4⟩ := tokens_cons hts3
      obtain ⟨lexeme'', position''', ts5, rfl, -⟩ := tokens_cons hts4
      refine ⟨_, _, rfl, rfl, ?_⟩
      have hk : t.kind = .number ∨ t.kind = .name := by
        rw [← Token.word_fst, ht]
        cases index <;> simp [Index.word]
      show (decide (t.kind = .number) || decide (t.kind = .name)) = true
      simpa using hk
  | result value =>
    cases value
    all_goals
      obtain ⟨lexeme, position, ts', rfl, -⟩ := tokens_cons hts
      exact ⟨_, _, rfl, rfl, rfl⟩
  | branch | choice | each | repetition | procedure =>
    obtain ⟨lexeme, position, ts', rfl, -⟩ := tokens_cons hts
    exact ⟨_, _, rfl, rfl, rfl⟩

/-- Statements that come before a block's end leave reading where it can go on. -/
theorem Fresh.of_statements {ss : List Statement} {ts r : List Token}
    (hts : ts.map Token.word = Statement.wordsOf ss) (hr : Fresh r) : Fresh (ts ++ r) := by
  cases ss with
  | nil =>
    obtain rfl := List.map_eq_nil_iff.mp hts
    exact hr
  | cons s ss =>
    obtain ⟨t1, t2, rfl, ht1, -⟩ := List.map_eq_append_iff.mp hts
    obtain ⟨-, -, -, -, hs⟩ := s.starts ht1 (t2 ++ r)
    intro t ht
    rw [List.append_assoc]
    exact .inr hs

/-- `s` is read back from its words, without errors, where reading can go on after it. -/
def Statement.ReadsBack (s : Statement) : Prop :=
  ∀ {awaited : List Kind}, (∀ k ∈ awaited, k.endsBlock = true) → ∀ {t : Token} {ts r : List Token},
    (t :: ts).map Token.word = s.words → Fresh r →
      ∃ a, readStatement awaited t (ts ++ r) = some a ∧ a.Gives s r

/-- `ss` are read back from their words, without errors, up to the end or a word that is awaited. -/
def Statement.AllReadBack (ss : List Statement) : Prop :=
  ∀ {awaited : List Kind}, (∀ k ∈ awaited, k.endsBlock = true) → ∀ {ts r : List Token},
    ts.map Token.word = Statement.wordsOf ss → (∀ t ∈ r.head?, t.kind ∈ awaited) →
      (readStatements awaited (ts ++ r)).Gives ss r

/-- The block begins with the statements `ss` and is otherwise as the block `b'`. -/
structure Block.Extends {ts ts' : List Token} (b : Block ts) (ss : List Statement)
    (b' : Block ts') : Prop where
  statements : b.statements = ss ++ b'.statements
  stops : b.stops = b'.stops
  rest : b.rest = b'.rest

/-- Reading goes on after a statement that is read back as it would begin there. -/
theorem Statement.ReadsBack.extends {s : Statement} (h : s.ReadsBack) {awaited : List Kind}
    (ha : ∀ k ∈ awaited, k.endsBlock = true) {ts r : List Token}
    (hts : ts.map Token.word = s.words) (hr : Fresh r) :
    (readStatements awaited (ts ++ r)).Extends [s] (readStatements awaited r) := by
  obtain ⟨t, ts', rfl, hends, -⟩ := s.starts hts []
  obtain ⟨a, hread, hgives⟩ := h ha hts hr
  obtain ⟨hsuffix, rfl⟩ := hgives.eq
  have hnot : t.kind ∉ awaited := by
    intro hk
    rw [ha _ hk] at hends
    exact nomatch hends
  rw [List.cons_append, readStatements, if_neg hnot, hread]
  exact ⟨rfl, rfl, rfl⟩

namespace Statement.AllReadBack

theorem nil : Statement.AllReadBack [] := by
  intro awaited _ ts r hts hr
  obtain rfl := List.map_eq_nil_iff.mp hts
  cases r with
  | nil =>
    rw [List.nil_append, readStatements]
    exact ⟨rfl, rfl, rfl⟩
  | cons t r =>
    rw [List.nil_append, readStatements, if_pos (hr t rfl)]
    exact ⟨rfl, rfl, rfl⟩

theorem cons {s : Statement} {ss : List Statement} (h : s.ReadsBack)
    (hs : Statement.AllReadBack ss) : Statement.AllReadBack (s :: ss) := by
  intro awaited ha ts r hts hr
  obtain ⟨t1, t2, rfl, ht1, ht2⟩ := List.map_eq_append_iff.mp hts
  have hmore := hs ha ht2 hr
  have hfresh : Fresh (t2 ++ r) :=
    Fresh.of_statements ht2 fun t ht => .inl (ha _ (hr t ht))
  have hfirst := h.extends ha ht1 hfresh
  rw [List.append_assoc]
  exact ⟨hfirst.statements.trans (congrArg (s :: ·) hmore.statements),
    hfirst.stops.trans hmore.stops, hfirst.rest.trans hmore.rest⟩

/-- A body is read back up to a word that closes it. -/
theorem body {ss : List Statement} (h : Statement.AllReadBack ss) (hne : ss ≠ [])
    {closing awaited : List Kind} (hc : ∀ k ∈ closing, k.endsBlock = true)
    (ha : ∀ k ∈ awaited, k.endsBlock = true) {ts r : List Token} {t : Token}
    (hts : ts.map Token.word = Statement.wordsOf ss) (ht : t.kind ∈ closing) :
    (readBody awaited closing (ts ++ t :: r)).Gives ss (t :: r) := by
  have hends : ∀ k ∈ closing ++ awaited, k.endsBlock = true := fun k hk =>
    (List.mem_append.mp hk).elim (hc k) (ha k)
  have hmem : ∀ t' ∈ (t :: r).head?, t'.kind ∈ closing ++ awaited := by
    rintro t' ⟨⟩
    exact List.mem_append_left awaited ht
  rw [readBody]
  exact (h hends hts hmem).body hne

end Statement.AllReadBack

namespace Statement.ReadsBack

variable {condition : Condition} {body other : List Statement}

theorem assign (target : Target) {value : Calc} (hv : value.Grouped) :
    (Statement.assign target value).ReadsBack := by
  intro awaited _ t ts r hts hr
  have ht : t.word = (.name, t.lexeme) ∧ t.kind = .name := by
    cases target
    all_goals
      obtain ⟨position, ts', heq, -⟩ := tokens_cons_name hts
      cases heq
      exact ⟨rfl, rfl⟩
  refine ⟨_, by rw [readStatement, ht.2], .ofReading ?_⟩
  rw [List.map_cons, ht.1] at hts
  exact readAssignment_value? hts hv hr.closed.calm

theorem noResult : (Statement.result none).ReadsBack := by
  intro awaited _ t ts r hts hr
  obtain ⟨lexeme, position, ts', heq, hts'⟩ := tokens_cons hts
  cases heq
  obtain rfl := List.map_eq_nil_iff.mp hts'
  exact ⟨_, by rw [readStatement], .ofReading (readResult_none hr)⟩

theorem result {value : Calc} (hv : value.Grouped) :
    (Statement.result (some value)).ReadsBack := by
  intro awaited _ t ts r hts hr
  obtain ⟨lexeme, position, ts', heq, hts'⟩ := tokens_cons hts
  cases heq
  exact ⟨_, by rw [readStatement], .ofReading (readResult_some hv hts' hr)⟩

theorem branch (hc : condition.Settled) (hb : Statement.AllReadBack body) (hne : body ≠ []) :
    (Statement.branch condition body).ReadsBack := by
  intro awaited ha t ts r hts hr
  obtain ⟨lexeme, position, ts', heq, hts'⟩ := tokens_cons hts
  cases heq
  have hparts : ts.map Token.word = (condition.words ++ [Kind.thenKw.word]) ++
      (Statement.wordsOf body ++ [Kind.endIf.word]) := by simpa using hts'
  obtain ⟨tc, trest, rfl, htc, htrest⟩ := List.map_eq_append_iff.mp hparts
  obtain ⟨tb, te, rfl, htb, hte⟩ := List.map_eq_append_iff.mp htrest
  obtain ⟨lexeme', position', rfl⟩ := tokens_singleton hte
  rw [List.append_assoc, List.append_assoc, List.singleton_append]
  refine ⟨_, by rw [readStatement], ?_⟩
  refine Attempt.Gives.bind (.ofReading (readTest_value? hc htc _)) fun _ => ?_
  refine Attempt.Gives.bind (hb.body hne (by decide) ha htb (List.mem_cons_of_mem _ (.head _)))
    fun _ => ?_
  exact .ofReading (by simp)

theorem choice (hc : condition.Settled) (hb : Statement.AllReadBack body) (hne : body ≠ [])
    (ho : Statement.AllReadBack other) (hne' : other ≠ []) :
    (Statement.choice condition body other).ReadsBack := by
  intro awaited ha t ts r hts hr
  obtain ⟨lexeme, position, ts', heq, hts'⟩ := tokens_cons hts
  cases heq
  have hparts : ts.map Token.word = (condition.words ++ [Kind.thenKw.word]) ++
      (Statement.wordsOf body ++ Kind.elseKw.word ::
        (Statement.wordsOf other ++ [Kind.endIf.word])) := by simpa using hts'
  obtain ⟨tc, trest, rfl, htc, htrest⟩ := List.map_eq_append_iff.mp hparts
  obtain ⟨tb, trest', rfl, htb, htrest'⟩ := List.map_eq_append_iff.mp htrest
  obtain ⟨lexeme', position', telse, rfl, htelse⟩ := tokens_cons htrest'
  obtain ⟨tother, te, rfl, hto, hte⟩ := List.map_eq_append_iff.mp htelse
  obtain ⟨lexeme'', position'', rfl⟩ := tokens_singleton hte
  rw [List.append_assoc, List.append_assoc, List.cons_append, List.append_assoc,
    List.singleton_append]
  refine ⟨_, by rw [readStatement], ?_⟩
  refine Attempt.Gives.bind (.ofReading (readTest_value? hc htc _)) fun _ => ?_
  refine Attempt.Gives.bind (hb.body hne (by decide) ha htb (.head _)) fun _ => ?_
  refine Attempt.Gives.past (Attempt.Gives.bind
    (ho.body hne' (by decide) ha hto (.head _)) fun _ => ?_)
  exact .ofReading (by simp)

theorem each (counter : String) {source : Source} (hs : source.Grouped)
    (hb : Statement.AllReadBack body) (hne : body ≠ []) :
    (Statement.each counter source body).ReadsBack := by
  intro awaited ha t ts r hts hr
  obtain ⟨lexeme, position, ts', heq, hts'⟩ := tokens_cons hts
  cases heq
  have hparts : ts.map Token.word =
      ((.name, counter) :: Kind.inKw.word :: source.words ++ [Kind.doKw.word]) ++
        (Statement.wordsOf body ++ [Kind.endFor.word]) := by simpa using hts'
  obtain ⟨th, trest, rfl, hth, htrest⟩ := List.map_eq_append_iff.mp hparts
  obtain ⟨tb, te, rfl, htb, hte⟩ := List.map_eq_append_iff.mp htrest
  obtain ⟨lexeme', position', rfl⟩ := tokens_singleton hte
  rw [List.append_assoc, List.append_assoc, List.singleton_append]
  refine ⟨_, by rw [readStatement], ?_⟩
  refine Attempt.Gives.bind (.ofReading (readEach_value? hs hth _)) fun _ => ?_
  refine Attempt.Gives.bind (hb.body hne (by decide) ha htb (.head _)) fun _ => ?_
  exact .ofReading (by simp)

theorem repetition (hc : condition.Settled) (hb : Statement.AllReadBack body) (hne : body ≠ []) :
    (Statement.repetition body condition).ReadsBack := by
  intro awaited ha t ts r hts hr
  obtain ⟨lexeme, position, ts', heq, hts'⟩ := tokens_cons hts
  cases heq
  obtain ⟨tb, trest, rfl, htb, htrest⟩ := List.map_eq_append_iff.mp hts'
  obtain ⟨lexeme', position', tc, rfl, htc⟩ := tokens_cons htrest
  have hread := (Condition.Settled.readable condition hc).read htc hr.closed hr.not_joined
  rw [List.append_assoc, List.cons_append]
  refine ⟨_, by rw [readStatement], ?_⟩
  refine Attempt.Gives.bind (hb.body hne (by decide) ha htb (.head _)) fun _ => ?_
  exact .ofReading (by simp [value?_bind, hread])

theorem procedure (name : String) (parameters : List String) (hb : Statement.AllReadBack body)
    (hne : body ≠ []) : (Statement.procedure name parameters body).ReadsBack := by
  intro awaited ha t ts r hts hr
  obtain ⟨lexeme, position, ts', heq, hts'⟩ := tokens_cons hts
  cases heq
  have hparts : ts.map Token.word =
      ((.name, name) :: Kind.openParen.word :: parameterWords parameters ++
        [Kind.closeParen.word]) ++ (Statement.wordsOf body ++ [Kind.endProc.word]) := by
    simpa using hts'
  obtain ⟨th, trest, rfl, hth, htrest⟩ := List.map_eq_append_iff.mp hparts
  obtain ⟨tb, te, rfl, htb, hte⟩ := List.map_eq_append_iff.mp htrest
  obtain ⟨lexeme', position', rfl⟩ := tokens_singleton hte
  rw [List.append_assoc, List.append_assoc, List.singleton_append]
  refine ⟨_, by rw [readStatement], ?_⟩
  refine Attempt.Gives.bind (.ofReading (readSignature_value? hth _)) fun _ => ?_
  refine Attempt.Gives.bind (hb.body hne (by decide) ha htb (.head _)) fun _ => ?_
  exact .ofReading (by simp)

end Statement.ReadsBack

mutual

/-- A settled statement without empty blocks is read back from its words. -/
theorem Statement.Settled.readsBack : (s : Statement) → s.Settled → s.Full → s.ReadsBack
  | .assign target _, h, _ => Statement.ReadsBack.assign target h
  | .result none, _, _ => Statement.ReadsBack.noResult
  | .result (some _), h, _ => Statement.ReadsBack.result h
  | .branch _ body, h, hf =>
    Statement.ReadsBack.branch h.1 (Statement.AllSettled.allReadBack body h.2 hf.2) hf.1
  | .choice _ body other, h, hf =>
    Statement.ReadsBack.choice h.1 (Statement.AllSettled.allReadBack body h.2.1 hf.1.2) hf.1.1
      (Statement.AllSettled.allReadBack other h.2.2 hf.2.2) hf.2.1
  | .each counter _ body, h, hf =>
    Statement.ReadsBack.each counter h.1 (Statement.AllSettled.allReadBack body h.2 hf.2) hf.1
  | .repetition body _, h, hf =>
    Statement.ReadsBack.repetition h.2 (Statement.AllSettled.allReadBack body h.1 hf.2) hf.1
  | .procedure name parameters body, h, hf =>
    Statement.ReadsBack.procedure name parameters
      (Statement.AllSettled.allReadBack body h hf.2) hf.1

/-- Settled statements without empty blocks are read back from their words. -/
theorem Statement.AllSettled.allReadBack : (ss : List Statement) → Statement.AllSettled ss →
    Statement.AllFull ss → Statement.AllReadBack ss
  | [], _, _ => Statement.AllReadBack.nil
  | s :: ss, h, hf =>
    Statement.AllReadBack.cons (Statement.Settled.readsBack s h.1 hf.1)
      (Statement.AllSettled.allReadBack ss h.2 hf.2)

end

/-- Behind settled statements without empty blocks, reading goes on as it would begin there. -/
theorem Statement.AllSettled.extends {awaited : List Kind}
    (ha : ∀ k ∈ awaited, k.endsBlock = true) {r : List Token} (hr : Fresh r) {ss : List Statement}
    (h : Statement.AllSettled ss) (hf : Statement.AllFull ss) {ts : List Token}
    (hts : ts.map Token.word = Statement.wordsOf ss) :
    (readStatements awaited (ts ++ r)).Extends ss (readStatements awaited r) := by
  induction ss generalizing ts with
  | nil =>
    obtain rfl := List.map_eq_nil_iff.mp hts
    exact ⟨rfl, rfl, rfl⟩
  | cons s ss ih =>
    obtain ⟨t1, t2, rfl, ht1, ht2⟩ := List.map_eq_append_iff.mp hts
    have hs : s.ReadsBack := Statement.Settled.readsBack s h.1 hf.1
    have hfirst := hs.extends ha ht1 (Fresh.of_statements ht2 hr)
    have hmore := ih h.2 hf.2 ht2
    rw [List.append_assoc]
    exact ⟨hfirst.statements.trans (congrArg (s :: ·) hmore.statements),
      hfirst.stops.trans hmore.stops, hfirst.rest.trans hmore.rest⟩

/-- The words of settled statements without empty blocks are a program, and its statements are
those. -/
theorem readProgram_of_words {ss : List Statement} (h : Statement.AllSettled ss)
    (hf : Statement.AllFull ss) (hne : ss ≠ []) {ts : List Token}
    (hts : ts.map Token.word = Statement.wordsOf ss) : readProgram ts = (ss, []) := by
  have hgives : (readStatements [] (ts ++ [])).Gives ss [] :=
    Statement.AllSettled.allReadBack ss h hf (by simp) hts (by simp)
  rw [List.append_nil] at hgives
  obtain ⟨hs, he, -⟩ := hgives
  simp [readProgram, hs, he, hne]

end Growth.Pseudo
