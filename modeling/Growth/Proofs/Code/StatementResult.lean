import Growth.Code.ReadStatement
import Growth.Proofs.Code.Result

/-! What building statements gives, without its bounds and without the error. Each reader is a plain
equation between such results. -/

namespace Growth.Code

open Outcome

/-- What is read of a statement that has no body. -/
def simple (ts : List Token) : Result Statement :=
  (readSimple ts).value?

/-- What is read of the statements of a line. -/
def line (ts : List Token) : Result (List Statement) :=
  (readLine ts).value?

/-- What is read of a block. -/
def block (ts : List Token) : Result (List Statement) :=
  (readBlock ts).value?

/-- What is read of the statement that begins with `t`. -/
def statement (t : Token) (ts : List Token) : Result (List Statement) :=
  (readStatement t ts).value?

/-- What is read of a branch, after its keyword. -/
def branch (ts : List Token) : Result Statement :=
  (readBranch ts).value?

/-- What is read of a body. -/
def suite (ts : List Token) : Result (List Statement) :=
  (readSuite ts).value?

/-- What is read of a condition and the colon after it. -/
def condition (ts : List Token) : Result Expression :=
  (readCondition ts).value?

/-- The identifier at the beginning of `ts`. -/
def identifier? : List Token → Result String
  | ⟨.identifier name, _, _⟩ :: rest => some (name, rest)
  | _ => none

theorem expectIdentifier_value? (ts : List Token) :
    (expectIdentifier ts).value? = identifier? ts := by
  unfold expectIdentifier identifier?
  split <;> simp_all

/-! ### Simple statements -/

/-- The target that an expression is. -/
def Expression.target? : Expression → Option Target
  | name n => some (.name n)
  | item object index => some (.item object index)
  | field object n => some (.field object n)
  | _ => Option.none

theorem simple_of_pass {t : Token} (ht : t.kind = .keyword .passKw) (ts : List Token) :
    simple (t :: ts) = some (.pass, ts) := by
  obtain ⟨kind, place, stop⟩ := t
  cases ht
  rfl

theorem simple_of_break {t : Token} (ht : t.kind = .keyword .breakKw) (ts : List Token) :
    simple (t :: ts) = some (.breakLoop, ts) := by
  obtain ⟨kind, place, stop⟩ := t
  cases ht
  rfl

theorem simple_of_continue {t : Token} (ht : t.kind = .keyword .continueKw) (ts : List Token) :
    simple (t :: ts) = some (.continueLoop, ts) := by
  obtain ⟨kind, place, stop⟩ := t
  cases ht
  rfl

theorem simple_of_return {t : Token} (ht : t.kind = .keyword .returnKw) (ts : List Token) :
    simple (t :: ts) = if endsStatement ts then some (.result none, ts)
      else (read .tuple ts).map fun p => (.result (some p.1), p.2) := by
  obtain ⟨kind, place, stop⟩ := t
  cases ht
  rw [simple, readSimple]
  split
  · rfl
  · rw [value?_past, value?_map]
    rfl

/-- Keywords that begin a statement of their own. -/
def Keyword.isOwn : Keyword → Bool
  | passKw | breakKw | continueKw | returnKw => true
  | _ => false

/-- What follows an expression in a statement. -/
def assigned (x : Expression) (ts : List Token) : Result Statement :=
  (readAssigned x .start ts).value?

theorem readAssigned_value? (x : Expression) (p : Position) (ts : List Token) :
    (readAssigned x p ts).value? = assigned x ts := by
  unfold assigned readAssigned asTarget
  cases x <;> split <;> rfl

theorem assigned_equal (x : Expression) {t : Token} (ht : t.kind = .mark .equal)
    (ts : List Token) : assigned x (t :: ts) =
      x.target?.bind fun target => (read .tuple ts).map fun p => (.assign target p.1, p.2) := by
  obtain ⟨kind, place, stop⟩ := t
  cases ht
  unfold assigned readAssigned asTarget Expression.target?
  cases x <;> simp [read]

theorem assigned_augmented (x : Expression) {op : Operator} {t : Token}
    (ht : t.kind = .mark (.augmented op)) (ts : List Token) : assigned x (t :: ts) =
      x.target?.bind fun target => (read .tuple ts).map fun p => (.update target op p.1, p.2) := by
  obtain ⟨kind, place, stop⟩ := t
  cases ht
  unfold assigned readAssigned asTarget Expression.target?
  cases x <;> simp [read]

theorem simple_of_expression {t : Token} (ht : ∀ k : Keyword, k.isOwn = true → t.kind ≠ .keyword k)
    (ts : List Token) :
    simple (t :: ts) = (read .tuple (t :: ts)).bind fun p => assigned p.1 p.2 := by
  obtain ⟨kind, place, stop⟩ := t
  rw [simple, readSimple]
  · rw [value?_bind (f := assigned) fun _ _ _ => readAssigned_value? _ _ _]
    rfl
  · rintro _ _ _ ⟨⟩
    exact ht .passKw rfl rfl
  · rintro _ _ _ ⟨⟩
    exact ht .breakKw rfl rfl
  · rintro _ _ _ ⟨⟩
    exact ht .continueKw rfl rfl
  · rintro _ _ _ ⟨⟩
    exact ht .returnKw rfl rfl

/-! ### Lines -/

/-- A statement is followed by the end of its line, with a semicolon before it or without, or by a
semicolon and more statements. -/
theorem line_eq (ts : List Token) :
    line ts = (simple ts).bind fun p =>
      match after? .newline p.2, after? (.mark .semicolon) p.2 with
      | some rest, _ => some ([p.1], rest)
      | none, some rest =>
        match after? .newline rest with
        | some rest => some ([p.1], rest)
        | none => (line rest).map fun q => (p.1 :: q.1, q.2)
      | none, none => none := by
  have hne : Kind.mark .semicolon ≠ .newline := nofun
  rw [line, readLine, simple]
  cases readSimple ts with
  | failed e => rfl
  | done s rest hrest =>
    dsimp only [value?_done, Option.bind_some]
    split
    · rw [after?_self]
      rfl
    · rw [after?_ne hne, after?_self]
      simp only [after?_self]
      rfl
    · rename_i rest _ hnewline
      have hnone : after? .newline rest = none :=
        after?_eq_none fun _ _ _ h => by subst h; exact hnewline _ _ _ _ rfl HEq.rfl
      rw [value?_widen, value?_map, after?_ne hne, after?_self]
      simp only [hnone]
      rfl
    · rename_i hnewline _ hsemicolon
      rw [after?_eq_none fun _ _ _ h => by subst h; exact hnewline _ _ _ _ rfl HEq.rfl,
        after?_eq_none fun _ _ _ h => by subst h; exact hsemicolon _ _ _ _ rfl HEq.rfl]
      rfl

theorem line_of_newline {ts rest : List Token} {s : Statement} {t : Token}
    (h : simple ts = some (s, t :: rest)) (ht : t.kind = .newline) :
    line ts = some ([s], rest) := by
  rw [line_eq, h]
  simp [after?, ht]

theorem line_of_none {ts : List Token} (h : simple ts = none) : line ts = none := by
  rw [line_eq, h]
  rfl

/-- A statement is followed by another one or by the end of its line. -/
theorem line_of_other {ts rest : List Token} {s : Statement} {t : Token}
    (h : simple ts = some (s, t :: rest)) (hn : t.kind ≠ .newline)
    (hs : t.kind ≠ .mark .semicolon) : line ts = none := by
  rw [line_eq, h]
  simp [after?, hn, hs]

/-! ### Headers -/

theorem condition_eq (ts : List Token) :
    condition ts = (read .or ts).bind fun p => (after? (.mark .colon) p.2).map fun rest =>
      (p.1, rest) := by
  unfold condition readCondition
  rw [value?_bind fun _ _ _ => value?_map _ _]
  simp [expect_value?, read, Option.map_map, Function.comp_def]

theorem readSignature_value? (ts : List Token) :
    (readSignature ts).value? = (identifier? ts).bind fun n =>
      (after? (.mark (.opening .round)) n.2).bind fun rest =>
        (readParameters rest).value?.bind fun ps =>
          (after? (.mark .colon) ps.2).map fun rest => ((n.1, ps.1), rest) := by
  unfold readSignature
  rw [value?_bind fun _ _ _ => value?_bind fun _ _ _ => value?_bind fun _ _ _ => value?_map _ _]
  simp [expect_value?, expectIdentifier_value?, Option.map_map, Function.comp_def, Option.bind_map]

theorem readCounter_value? (ts : List Token) :
    (readCounter ts).value? = (identifier? ts).bind fun n =>
      (after? (.keyword .inKw) n.2).bind fun rest =>
        (read .tuple rest).bind fun p =>
          (after? (.mark .colon) p.2).map fun rest => ((n.1, p.1), rest) := by
  unfold readCounter
  rw [value?_bind fun _ _ _ => value?_bind fun _ _ _ => value?_bind fun _ _ _ => value?_map _ _]
  simp [expect_value?, expectIdentifier_value?, Option.map_map, Function.comp_def,
    Option.bind_map, read]

/-! ### Blocks -/

theorem block_nil : block [] = some ([], []) := by
  rw [block, readBlock]
  rfl

theorem block_newline {t : Token} (ht : t.kind = .newline) (ts : List Token) :
    block (t :: ts) = block ts := by
  rw [block, readBlock, if_pos ht, value?_past]
  rfl

theorem block_end {t : Token} (ht : t.kind = .dedent ∨ t.kind = .endOfFile) (ts : List Token) :
    block (t :: ts) = some ([], t :: ts) := by
  rw [block, readBlock, if_neg (by rcases ht with h | h <;> simp [h]),
    if_pos (by rcases ht with h | h <;> simp [h])]
  rfl

/-- The kinds of tokens with which no statement begins. -/
def Kind.isBetween : Kind → Bool
  | .newline | .dedent | .endOfFile => true
  | _ => false

theorem block_cons {t : Token} (ht : t.kind.isBetween = false) (ts : List Token) :
    block (t :: ts) = (statement t ts).bind fun p =>
      (block p.2).map fun q => (p.1 ++ q.1, q.2) := by
  have hkind : t.kind ≠ .newline ∧ t.kind ≠ .dedent ∧ t.kind ≠ .endOfFile := by
    refine ⟨?_, ?_, ?_⟩ <;> intro hk <;> rw [hk] at ht <;> exact nomatch ht
  rw [block, readBlock, if_neg hkind.1, if_neg (by simp [hkind.2]), value?_past,
    value?_bind fun _ _ _ => value?_map _ _]
  rfl

/-! ### Statements with bodies -/

theorem statement_function {t : Token} (ht : t.kind = .keyword .defKw) (ts : List Token) :
    statement t ts = (readSignature ts).value?.bind fun p =>
      (suite p.2).map fun q => ([.function p.1.1 p.1.2 q.1], q.2) := by
  rw [statement, readStatement.eq_def, ht]
  rw [value?_bind fun _ _ _ => value?_map _ _]
  rfl

theorem statement_branch {t : Token} (ht : t.kind = .keyword .ifKw) (ts : List Token) :
    statement t ts = (branch ts).map fun p => ([p.1], p.2) := by
  rw [statement, readStatement.eq_def, ht]
  exact value?_map _ _

theorem statement_while {t : Token} (ht : t.kind = .keyword .whileKw) (ts : List Token) :
    statement t ts = (condition ts).bind fun p =>
      (suite p.2).map fun q => ([.whileLoop p.1 q.1], q.2) := by
  rw [statement, readStatement.eq_def, ht]
  rw [value?_bind fun _ _ _ => value?_map _ _]
  rfl

theorem statement_for {t : Token} (ht : t.kind = .keyword .forKw) (ts : List Token) :
    statement t ts = (readCounter ts).value?.bind fun p =>
      (suite p.2).map fun q => ([.forLoop p.1.1 p.1.2 q.1], q.2) := by
  rw [statement, readStatement.eq_def, ht]
  rw [value?_bind fun _ _ _ => value?_map _ _]
  rfl

/-- Keywords that begin a statement with a body. -/
def Keyword.hasBody : Keyword → Bool
  | defKw | ifKw | whileKw | forKw => true
  | _ => false

theorem statement_line {t : Token} (ht : ∀ k : Keyword, k.hasBody = true → t.kind ≠ .keyword k)
    (ts : List Token) : statement t ts = line (t :: ts) := by
  rw [statement, readStatement.eq_def]
  split
  · rename_i hk
    exact absurd hk (ht .defKw rfl)
  · rename_i hk
    exact absurd hk (ht .ifKw rfl)
  · rename_i hk
    exact absurd hk (ht .whileKw rfl)
  · rename_i hk
    exact absurd hk (ht .forKw rfl)
  · rfl

theorem branch_eq (ts : List Token) :
    branch ts = (condition ts).bind fun c => (suite c.2).bind fun b =>
      match after? (.keyword .elifKw) b.2, after? (.keyword .elseKw) b.2 with
      | some rest, _ => (branch rest).map fun p => (.branch c.1 b.1 [p.1], p.2)
      | none, some rest => (after? (.mark .colon) rest).bind fun rest =>
        (suite rest).map fun p => (.branch c.1 b.1 p.1, p.2)
      | none, none => some (.branch c.1 b.1 [], b.2) := by
  rw [branch, readBranch, value?_bind (f := fun c rest => (suite rest).bind fun b =>
      match after? (.keyword .elifKw) b.2, after? (.keyword .elseKw) b.2 with
      | some rest, _ => (branch rest).map fun p => (.branch c b.1 [p.1], p.2)
      | none, some rest => (after? (.mark .colon) rest).bind fun rest =>
        (suite rest).map fun p => (.branch c b.1 p.1, p.2)
      | none, none => some (.branch c b.1 [], b.2))]
  · rfl
  · intro c rest _
    rw [value?_bind (f := fun b rest =>
      match after? (.keyword .elifKw) rest, after? (.keyword .elseKw) rest with
      | some rest, _ => (branch rest).map fun p => (.branch c b [p.1], p.2)
      | none, some rest => (after? (.mark .colon) rest).bind fun rest =>
        (suite rest).map fun p => (.branch c b p.1, p.2)
      | none, none => some (.branch c b [], rest))]
    · rfl
    · intro b rest _
      split
      · rw [value?_past, value?_map]
        simp [after?, branch]
      · rw [value?_past, value?_bind fun _ _ _ => value?_map _ _]
        simp [after?, expect_value?, Option.bind_map, suite, Function.comp_def]
      · rename_i helif helse
        rw [after?_eq_none fun place stop rest' h => by subst h; exact helif _ _ _ _ rfl HEq.rfl,
          after?_eq_none fun place stop rest' h => by subst h; exact helse _ _ _ _ rfl HEq.rfl]
        rfl

theorem suite_line {ts : List Token} (h : ∀ t ∈ ts.head?, t.kind ≠ .newline) :
    suite ts = line ts := by
  rw [suite, readSuite]
  · exact value?_widen _ _
  · rintro place stop rest rfl
    exact h _ rfl rfl

theorem suite_newline {t : Token} (ht : t.kind = .newline) (ts : List Token) :
    suite (t :: ts) = (after? .indent ts).bind fun rest => (block rest).bind fun p =>
      (after? .dedent p.2).map fun rest => (p.1, rest) := by
  obtain ⟨kind, place, stop⟩ := t
  cases ht
  rw [suite, readSuite, value?_past, value?_bind fun _ _ _ => value?_bind fun _ _ _ => value?_map _ _]
  simp [expect_value?, Option.map_map, Function.comp_def, Option.bind_map, block]

end Growth.Code
