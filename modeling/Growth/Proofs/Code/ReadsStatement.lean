import Growth.Proofs.Code.ReadsBracketed
import Growth.Proofs.Code.StatementResult

/-! Kinds of tokens that are read as statements, or as none. A branch looks for its other body behind
its first one, so what follows statements is known not to go on with a branch. -/

namespace Growth.Code

open Outcome

/-- What follows does not go on with a branch: it begins with no other body, and where it begins with
the word for a further condition, no condition follows. -/
def Fresh (r : List Token) : Prop :=
  ∀ t rest, r = t :: rest →
    t.kind ≠ .keyword .elseKw ∧ (t.kind = .keyword .elifKw → condition rest = none)

theorem Fresh.of_kind {t : Token} (h : t.kind ≠ .keyword .elseKw) (h' : t.kind ≠ .keyword .elifKw)
    (r : List Token) : Fresh (t :: r) := by
  rintro _ _ ⟨⟩
  exact ⟨h, fun hk => absurd hk h'⟩

/-! ### Statements without bodies -/

/-- A kind that can begin a statement without a body. -/
def Kind.isPlain : Kind → Bool
  | .keyword k => !(k.hasBody || k == .elifKw || k == .elseKw)
  | k => !k.isBetween

theorem Kind.isPlain.ne_hasBody {k : Kind} (h : k.isPlain = true) :
    ∀ w : Keyword, w.hasBody = true → k ≠ .keyword w := by
  rintro w hw rfl
  simp [isPlain, hw] at h

theorem Kind.isPlain.not_isBetween {k : Kind} (h : k.isPlain = true) : k.isBetween = false := by
  cases k <;> first | rfl | simp_all [isPlain]

theorem Kind.isPlain.ne_else {k : Kind} (h : k.isPlain = true) :
    k ≠ .keyword .elseKw ∧ k ≠ .keyword .elifKw := by
  constructor
  all_goals
    rintro rfl
    exact nomatch h

/-- The kinds of tokens that end a statement of a line. -/
def Kind.endsSimple : Kind → Bool
  | .newline | .mark .semicolon => true
  | _ => false

/-- The kinds `ks` are read as a statement without a body, or as none, where a statement of a line
ends. -/
structure ReadsSimple (ks : List Kind) (o : Option Statement) : Prop where
  leads : ∃ k ks', ks = k :: ks' ∧ k.isPlain = true
  read : ∀ ts t r, ts.map Token.kind = ks → t.kind.endsSimple = true →
    simple (ts ++ t :: r) = o.map fun s => (s, t :: r)

theorem Kind.endsSimple_cases {k : Kind} (h : k.endsSimple = true) :
    k = .newline ∨ k = .mark .semicolon := by
  unfold endsSimple at h
  split at h
  · exact .inl rfl
  · exact .inr rfl
  · cases h

theorem Stops.of_endsSimple {t : Token} (ht : t.kind.endsSimple = true) (n : Nat)
    (r : List Token) : Stops n (t :: r) := by
  rw [stops_cons]
  rcases Kind.endsSimple_cases ht with hk | hk <;> rw [hk] <;> exact Nat.zero_le n

theorem assigned_of_endsSimple (x : Expression) {t : Token} (ht : t.kind.endsSimple = true)
    (ts : List Token) : assigned x (t :: ts) = some (.expression x, t :: ts) := by
  obtain ⟨kind, place, stop⟩ := t
  rcases Kind.endsSimple_cases ht with rfl | rfl <;> rfl

namespace ReadsSimple

variable {ks ks' : List Kind} {o o' : Option Expression}

theorem pass : ReadsSimple [.keyword .passKw] (some .pass) := by
  refine ⟨⟨_, _, rfl, rfl⟩, fun ts t r hts _ => ?_⟩
  obtain ⟨place, stop, rfl⟩ := kinds_singleton hts
  exact simple_of_pass rfl _

theorem breakLoop : ReadsSimple [.keyword .breakKw] (some .breakLoop) := by
  refine ⟨⟨_, _, rfl, rfl⟩, fun ts t r hts _ => ?_⟩
  obtain ⟨place, stop, rfl⟩ := kinds_singleton hts
  exact simple_of_break rfl _

theorem continueLoop : ReadsSimple [.keyword .continueKw] (some .continueLoop) := by
  refine ⟨⟨_, _, rfl, rfl⟩, fun ts t r hts _ => ?_⟩
  obtain ⟨place, stop, rfl⟩ := kinds_singleton hts
  exact simple_of_continue rfl _

theorem noResult : ReadsSimple [.keyword .returnKw] (some (.result none)) := by
  refine ⟨⟨_, _, rfl, rfl⟩, fun ts t r hts ht => ?_⟩
  obtain ⟨place, stop, rfl⟩ := kinds_singleton hts
  rw [List.singleton_append, simple_of_return rfl, if_pos]
  · rfl
  · rcases Kind.endsSimple_cases ht with hk | hk <;> simp [endsStatement, hk]

theorem result (h : Reads .tuple ks o) :
    ReadsSimple (.keyword .returnKw :: ks) (o.map fun x => .result (some x)) := by
  refine ⟨⟨_, _, rfl, rfl⟩, fun ts t r hts ht => ?_⟩
  obtain ⟨place, stop, ts', rfl, hts'⟩ := kinds_cons hts
  obtain ⟨t', ts'', rfl, -, hends⟩ := h.exists_cons hts'
  have hgoes : endsStatement (t' :: ts'' ++ t :: r) = false := by
    rw [List.cons_append, endsStatement]
    unfold Kind.endsExpression at hends
    split at hends <;> simp_all
  rw [List.cons_append, simple_of_return rfl, hgoes, if_neg Bool.false_ne_true,
    h.read_of_stops hts' (.of_endsSimple ht _ r)]
  cases o <;> rfl

theorem ne_isOwn_of_starts {k : Kind} (h : k.starts = true) :
    ∀ w : Keyword, w.isOwn = true → k ≠ .keyword w := by
  rintro w hw rfl
  cases w <;> first | exact absurd hw (by decide) | exact absurd h (by decide)

theorem isPlain_of_starts {k : Kind} (h : k.starts = true) : k.isPlain = true := by
  cases k with
  | keyword w => cases w <;> first | rfl | exact absurd h (by decide)
  | newline | dedent | endOfFile => exact absurd h (by decide)
  | _ => rfl

theorem starts_of_reads {k : Kind} {x : Expression} (h : Reads .tuple (k :: ks) (some x)) :
    k.starts = true := by
  have hts : ((k :: ks).map fun k => (⟨k, .start, 0⟩ : Token)).map Token.kind = k :: ks := by
    simp [Function.comp_def]
  simpa [startsExpression_cons] using h.starts hts []

theorem expression {x : Expression} (h : Reads .tuple ks (some x)) :
    ReadsSimple ks (some (.expression x)) := by
  obtain ⟨k, ks', rfl, -, -⟩ := h.leads
  have hk := starts_of_reads h
  refine ⟨⟨k, ks', rfl, isPlain_of_starts hk⟩, fun ts t r hts ht => ?_⟩
  have hread := h.read_of_stops hts (.of_endsSimple ht _ r)
  obtain ⟨place, stop, ts', rfl, -⟩ := kinds_cons hts
  rw [List.cons_append] at hread ⊢
  rw [simple_of_expression (ne_isOwn_of_starts hk), hread]
  exact assigned_of_endsSimple x ht r

/-- An assignment to what begins with no word of a statement of its own. -/
theorem assignment {k sep : Kind} {make : Target → Expression → Statement}
    (hsep : sep.binding = 0)
    (hmake : ∀ x t ts, t.kind = sep → assigned x (t :: ts) =
      x.target?.bind fun target => (Code.read .tuple ts).map fun p => (make target p.1, p.2))
    (h : Reads .tuple (k :: ks) o) (hk : k.isPlain = true)
    (hown : ∀ w : Keyword, w.isOwn = true → k ≠ .keyword w) (h' : Reads .tuple ks' o') :
    ReadsSimple (k :: ks ++ sep :: ks')
      ((o.bind Expression.target?).bind fun target => o'.map (make target)) := by
  refine ⟨⟨k, _, rfl, hk⟩, fun ts t r hts ht => ?_⟩
  obtain ⟨tl, tr, rfl, htl, htr⟩ := List.map_eq_append_iff.mp hts
  obtain ⟨place, stop, tr', rfl, htr'⟩ := kinds_cons htr
  have hread := h.read_of_stops (r := ⟨sep, place, stop⟩ :: (tr' ++ t :: r)) htl
    (stops_cons.mpr (by simp [hsep]))
  obtain ⟨place', stop', tl', rfl, -⟩ := kinds_cons htl
  rw [List.cons_append] at hread
  rw [List.append_assoc, List.cons_append, List.cons_append, simple_of_expression hown, hread]
  cases o with
  | none => rfl
  | some x =>
    simp only [Option.map_some, Option.bind_some]
    rw [hmake x _ _ rfl, h'.read_of_stops htr' (.of_endsSimple ht _ r)]
    cases x.target? <;> cases o' <;> rfl

theorem assign {k : Kind} (h : Reads .tuple (k :: ks) o) (hk : k.isPlain = true)
    (hown : ∀ w : Keyword, w.isOwn = true → k ≠ .keyword w) (h' : Reads .tuple ks' o') :
    ReadsSimple (k :: ks ++ .mark .equal :: ks')
      ((o.bind Expression.target?).bind fun target => o'.map (.assign target)) :=
  assignment rfl (fun x _ ts ht => assigned_equal x ht ts) h hk hown h'

theorem update {k : Kind} (op : Operator) (h : Reads .tuple (k :: ks) o) (hk : k.isPlain = true)
    (hown : ∀ w : Keyword, w.isOwn = true → k ≠ .keyword w) (h' : Reads .tuple ks' o') :
    ReadsSimple (k :: ks ++ .mark (.augmented op) :: ks')
      ((o.bind Expression.target?).bind fun target => o'.map (.update target op)) :=
  assignment rfl (fun x _ ts ht => assigned_augmented x ht ts) h hk hown h'

end ReadsSimple

/-! ### Lines -/

/-- The kinds `ks` are read as the statements of a line, up to and including its end. -/
structure ReadsLine (ks : List Kind) (ss : List Statement) : Prop where
  leads : ∃ k ks', ks = k :: ks' ∧ k.isPlain = true
  read : ∀ ts r, ts.map Token.kind = ks → line (ts ++ r) = some (ss, r)

namespace ReadsLine

variable {ks ks' : List Kind} {s : Statement} {ss : List Statement}

theorem one (h : ReadsSimple ks (some s)) : ReadsLine (ks ++ [Kind.newline]) [s] := by
  obtain ⟨k, ks₁, rfl, hk⟩ := h.leads
  refine ⟨⟨k, _, rfl, hk⟩, fun ts r hts => ?_⟩
  obtain ⟨tx, tn, rfl, htx, htn⟩ := List.map_eq_append_iff.mp hts
  obtain ⟨place, stop, rfl⟩ := kinds_singleton htn
  rw [List.append_assoc, List.singleton_append]
  exact line_of_newline (h.read tx _ r htx rfl) rfl

theorem line_of_semicolon {t : Token} {ts r : List Token} (h : ReadsSimple ks (some s))
    (hts : ts.map Token.kind = ks) (ht : t.kind = .mark .semicolon) :
    line (ts ++ t :: r) = match after? .newline r with
      | some rest => some ([s], rest)
      | none => (line r).map fun q => (s :: q.1, q.2) := by
  obtain ⟨kind, place, stop⟩ := t
  cases ht
  have hne : Kind.mark .semicolon ≠ .newline := nofun
  rw [line_eq, h.read ts _ r hts rfl]
  simp only [Option.map_some, Option.bind_some, after?_ne hne, after?_self] <;> rfl

/-- There may be a semicolon after the last statement. -/
theorem semicolon (h : ReadsSimple ks (some s)) :
    ReadsLine (ks ++ [Kind.mark .semicolon, .newline]) [s] := by
  obtain ⟨k, ks₁, rfl, hk⟩ := h.leads
  refine ⟨⟨k, _, rfl, hk⟩, fun ts r hts => ?_⟩
  obtain ⟨tx, tn, rfl, htx, htn⟩ := List.map_eq_append_iff.mp hts
  obtain ⟨place, stop, tn', rfl, htn'⟩ := kinds_cons htn
  obtain ⟨place', stop', rfl⟩ := kinds_singleton htn'
  rw [List.append_assoc, List.cons_append, List.singleton_append, line_of_semicolon h htx rfl,
    after?_self]

theorem cons (h : ReadsSimple ks (some s)) (h' : ReadsLine ks' ss) :
    ReadsLine (ks ++ .mark .semicolon :: ks') (s :: ss) := by
  obtain ⟨k, ks₁, rfl, hk⟩ := h.leads
  obtain ⟨k', ks₁', rfl, hk'⟩ := h'.leads
  refine ⟨⟨k, _, rfl, hk⟩, fun ts r hts => ?_⟩
  obtain ⟨tx, tn, rfl, htx, htn⟩ := List.map_eq_append_iff.mp hts
  obtain ⟨place, stop, tn', rfl, htn'⟩ := kinds_cons htn
  have hread := h'.read tn' r htn'
  obtain ⟨place', stop', tn'', rfl, -⟩ := kinds_cons htn'
  have hnewline : k' ≠ .newline := by
    rintro rfl
    exact nomatch hk'
  rw [List.cons_append] at hread
  rw [List.append_assoc, List.cons_append, line_of_semicolon h htx rfl, List.cons_append,
    after?_ne hnewline, hread]
  rfl

end ReadsLine

/-! ### Blocks -/

/-- The kinds `ks` are read as statements of a block, or not at all. -/
structure ReadsBlock (ks : List Kind) (o : Option (List Statement)) : Prop where
  fresh : ∀ ts r, ts.map Token.kind = ks → Fresh r → Fresh (ts ++ r)
  read : ∀ ts r, ts.map Token.kind = ks → Fresh r →
    block (ts ++ r) = o.bind fun ss => (block r).map fun p => (ss ++ p.1, p.2)

/-- The kinds `ks` are read as a body, or not at all. -/
def ReadsSuite (ks : List Kind) (o : Option (List Statement)) : Prop :=
  ∀ ts r, ts.map Token.kind = ks → suite (ts ++ r) = o.map fun ss => (ss, r)

/-- The kinds `ks` are read as a condition and a colon, or not at all. -/
def ReadsCondition (ks : List Kind) (o : Option Expression) : Prop :=
  ∀ ts r, ts.map Token.kind = ks → condition (ts ++ r) = o.map fun x => (x, r)

/-- The kinds `ks` are read as a branch after its keyword, with the statements that follow, or not at
all. -/
def ReadsBranch (ks : List Kind) (o : Option Statement) : Prop :=
  ∀ ts r, ts.map Token.kind = ks → Fresh r →
    ((branch (ts ++ r)).bind fun p => (block p.2).map fun q => (p.1, q)) =
      o.bind fun s => (block r).map fun q => (s, q)

namespace ReadsBlock

variable {ks ks' : List Kind} {o o' : Option (List Statement)}

theorem nil : ReadsBlock [] (some []) := by
  refine ⟨fun ts r hts hr => ?_, fun ts r hts _ => ?_⟩
  · obtain rfl := List.map_eq_nil_iff.mp hts
    exact hr
  · obtain rfl := List.map_eq_nil_iff.mp hts
    simp

theorem append (h : ReadsBlock ks o) (h' : ReadsBlock ks' o') :
    ReadsBlock (ks ++ ks') (o.bind fun ss => o'.map fun ss' => ss ++ ss') := by
  refine ⟨fun ts r hts hr => ?_, fun ts r hts hr => ?_⟩
  · obtain ⟨tl, tr, rfl, htl, htr⟩ := List.map_eq_append_iff.mp hts
    rw [List.append_assoc]
    exact h.fresh tl _ htl (h'.fresh tr r htr hr)
  · obtain ⟨tl, tr, rfl, htl, htr⟩ := List.map_eq_append_iff.mp hts
    rw [List.append_assoc, h.read tl _ htl (h'.fresh tr r htr hr), h'.read tr r htr hr]
    cases o <;> cases o' <;> simp [Option.map_map, Function.comp_def]

/-- A statement that begins with no word for another body of a branch. -/
theorem of_statement {k : Kind} (hk : k.isBetween = false)
    (hbranch : k ≠ .keyword .elseKw ∧ k ≠ .keyword .elifKw)
    (h : ∀ t ts r, t.kind = k → ts.map Token.kind = ks → Fresh r →
      ((statement t (ts ++ r)).bind fun p => (block p.2).map fun q => (p.1 ++ q.1, q.2)) =
        o.bind fun ss => (block r).map fun q => (ss ++ q.1, q.2)) :
    ReadsBlock (k :: ks) o := by
  refine ⟨fun ts r hts _ => ?_, fun ts r hts hr => ?_⟩
  · obtain ⟨place, stop, ts', rfl, -⟩ := kinds_cons hts
    exact .of_kind hbranch.1 hbranch.2 _
  · obtain ⟨place, stop, ts', rfl, hts'⟩ := kinds_cons hts
    rw [List.cons_append, block_cons hk]
    exact h _ ts' r rfl hts' hr

theorem simple {s : Option Statement} (h : ReadsSimple ks s) :
    ReadsBlock (ks ++ [Kind.newline]) (s.map fun s => [s]) := by
  obtain ⟨k, ks', rfl, hk⟩ := h.leads
  refine of_statement (Kind.isPlain.not_isBetween hk) (Kind.isPlain.ne_else hk)
    fun t ts r ht hts _ => ?_
  obtain ⟨tx, tn, rfl, htx, htn⟩ := List.map_eq_append_iff.mp hts
  obtain ⟨place, stop, rfl⟩ := kinds_singleton htn
  have hread := h.read (t :: tx) ⟨.newline, place, stop⟩ r (by simp [ht, htx]) rfl
  rw [statement_line (ht ▸ Kind.isPlain.ne_hasBody hk), List.append_assoc, List.singleton_append]
  rw [List.cons_append] at hread
  cases s with
  | none => rw [line_of_none hread]; rfl
  | some s => rw [line_of_newline hread rfl]; rfl

theorem line {ss : List Statement} (h : ReadsLine ks ss) : ReadsBlock ks (some ss) := by
  obtain ⟨k, ks', rfl, hk⟩ := h.leads
  refine of_statement (Kind.isPlain.not_isBetween hk) (Kind.isPlain.ne_else hk)
    fun t ts r ht hts _ => ?_
  have hread := h.read (t :: ts) r (by simp [ht, hts])
  rw [List.cons_append] at hread
  rw [statement_line (ht ▸ Kind.isPlain.ne_hasBody hk), hread]
  rfl

theorem newline (h : ReadsBlock ks o) : ReadsBlock (.newline :: ks) o := by
  refine ⟨fun ts r hts _ => ?_, fun ts r hts hr => ?_⟩
  · obtain ⟨place, stop, ts', rfl, -⟩ := kinds_cons hts
    exact .of_kind (by simp) (by simp) _
  · obtain ⟨place, stop, ts', rfl, hts'⟩ := kinds_cons hts
    rw [List.cons_append, block_newline rfl]
    exact h.read ts' r hts' hr

end ReadsBlock

/-- A line is a body where it follows on the same line. -/
theorem ReadsSuite.of_line {ks : List Kind} {ss : List Statement} (h : ReadsLine ks ss) :
    ReadsSuite ks (some ss) := by
  intro ts r hts
  obtain ⟨k, ks', rfl, hk⟩ := h.leads
  have hread := h.read ts r hts
  obtain ⟨place, stop, ts', rfl, -⟩ := kinds_cons hts
  rw [suite_line, hread]
  · rfl
  · rintro t ⟨⟩ rfl
    exact nomatch hk

theorem ReadsSuite.of_block {ks : List Kind} {o : Option (List Statement)} (h : ReadsBlock ks o) :
    ReadsSuite (.newline :: .indent :: ks ++ [Kind.dedent]) o := by
  intro ts r hts
  obtain ⟨place, stop, ts₁, rfl, hts₁⟩ := kinds_cons hts
  obtain ⟨place', stop', ts₂, rfl, hts₂⟩ := kinds_cons hts₁
  obtain ⟨tb, td, rfl, htb, htd⟩ := List.map_eq_append_iff.mp hts₂
  obtain ⟨place'', stop'', rfl⟩ := kinds_singleton htd
  rw [List.cons_append, List.cons_append, suite_newline rfl, after?_self]
  simp only [Option.bind_some]
  rw [List.append_assoc, List.singleton_append, h.read tb _ htb (.of_kind (by simp) (by simp) r),
    block_end (.inl rfl)]
  cases o <;> simp [after?]

theorem ReadsCondition.of_reads {ks : List Kind} {o : Option Expression} (h : Reads .or ks o) :
    ReadsCondition (ks ++ [Kind.mark .colon]) o := by
  intro ts r hts
  obtain ⟨tx, tc, rfl, htx, htc⟩ := List.map_eq_append_iff.mp hts
  obtain ⟨place, stop, rfl⟩ := kinds_singleton htc
  rw [condition_eq, List.append_assoc, List.singleton_append, h.read_of_stops htx (.colon _)]
  cases o <;> simp [after?]

/-! ### Programs -/

theorem Module.ofTokens_of_block {ts rest : List Token} {ss : List Statement} {t : Token}
    (h : block ts = some (ss, t :: rest)) (ht : t.kind = .endOfFile) :
    Module.ofTokens ts = .ok ⟨ss⟩ := by
  unfold block at h
  unfold Module.ofTokens
  cases hread : readBlock ts with
  | failed e =>
    rw [hread] at h
    exact nomatch h
  | done body rest' hrest' =>
    rw [hread] at h
    cases h
    simp [ht]

theorem Module.ofTokens_of_none {ts : List Token} (h : block ts = none) :
    ∃ e, Module.ofTokens ts = .error e := by
  unfold block at h
  unfold Module.ofTokens
  cases hread : readBlock ts with
  | failed e => exact ⟨e, rfl⟩
  | done body rest hrest =>
    rw [hread] at h
    exact nomatch h

/-- Statements up to the end of the text are a program. -/
theorem ReadsBlock.ofTokens {ks : List Kind} {o : Option (List Statement)} (h : ReadsBlock ks o)
    {ts : List Token} (hts : ts.map Token.kind = ks ++ [Kind.endOfFile]) :
    match o with
    | some ss => Module.ofTokens ts = .ok ⟨ss⟩
    | none => ∃ e, Module.ofTokens ts = .error e := by
  obtain ⟨tb, te, rfl, htb, hte⟩ := List.map_eq_append_iff.mp hts
  obtain ⟨place, stop, rfl⟩ := kinds_singleton hte
  have hread := h.read tb [⟨.endOfFile, place, stop⟩] htb (.of_kind (by simp) (by simp) _)
  rw [block_end (.inr rfl)] at hread
  cases o with
  | none => exact Module.ofTokens_of_none hread
  | some ss =>
    have hblock : block (tb ++ [⟨.endOfFile, place, stop⟩]) =
        some (ss, [⟨.endOfFile, place, stop⟩]) := by
      simpa using hread
    exact Module.ofTokens_of_block hblock rfl

end Growth.Code
