import Growth.Proofs.Code.Grammar
import Growth.Proofs.Code.ReadsBodies

/-! What the grammar derives is read, as the tree that it is derived with. -/

namespace Growth.Code

/-- The kinds of a form are read as the tree. -/
def Form.Reading : (f : Form) → List Kind → f.Tree → Prop
  | expression level, ks, x => Reads level ks (some x)
  | items, ks, xs =>
    (∀ b, ReadsItems b (ks ++ [.mark (.closing b)]) (some xs)) ∧ ReadsMore (.mark .comma :: ks) xs ∧
      (xs ≠ [] → Reads .primary (Bracket.curly.around ks) (some (.set xs)))
  | entries, ks, es =>
    ReadsEntries (.mark .comma :: (ks ++ [.mark (.closing .curly)])) es ∧
      Reads .primary (Bracket.curly.around ks) (some (.dict es))
  | compared, ks, xs =>
    ReadsCompared ks (some xs) ∧
      ∀ ts r, ts.map Token.kind = ks → Stops 4 r → Stops 5 (ts ++ r)
  | simple, ks, s => ReadsSimple ks (some s)
  | line, ks, ss => ReadsLine ks ss
  | suite, ks, ss => ReadsSuite ks (some ss)
  | parameters, ks, ps => ReadsParameters (ks ++ [.mark (.closing .round)]) (some ps)
  | branch, ks, s => ReadsBranch ks (some s)
  | statement, ks, ss | block, ks, ss => ReadsBlock ks (some ss)
  | program, ks, m => ∀ ts, ts.map Token.kind = ks → Module.ofTokens ts = .ok m

/-- An assignment to an expression that is a target. -/
theorem ReadsSimple.assignment_of_target {ks ks' : List Kind} {x y : Expression} {t : Target}
    {sep : Kind} {make : Target → Expression → Statement} (hsep : sep.binding = 0)
    (hmake : ∀ x t ts, t.kind = sep → assigned x (t :: ts) =
      x.target?.bind fun target => (Code.read .tuple ts).map fun p => (make target p.1, p.2))
    (h : Reads .tuple ks (some x)) (ht : x.target? = some t) (h' : Reads .tuple ks' (some y)) :
    ReadsSimple (ks ++ sep :: ks') (some (make t y)) := by
  obtain ⟨k, ks, rfl, -, -⟩ := h.leads
  have hk := starts_of_reads h
  have hread := assignment hsep hmake h (isPlain_of_starts hk) (ne_isOwn_of_starts hk) h'
  rwa [Option.bind_some, ht] at hread

/-- What the grammar derives is read. -/
theorem Derives.reading {f : Form} {ks : List Kind} {t : f.Tree} (h : Derives f ks t) :
    f.Reading ks t := by
  induction h with
  | integer l => exact Reads.integer l
  | float v => exact Reads.float v
  | strings hne => exact Reads.strings hne
  | name n => exact Reads.name n
  | boolean b => exact Reads.boolean b
  | noneLiteral => exact Reads.noneLiteral
  | parentheses _ ih => exact Reads.parentheses ih
  | emptyTuple => exact Reads.emptyTuple
  | list _ ih => exact Reads.list (ih.1 .square)
  | set _ hne ih => exact ih.2.2 hne
  | dict _ ih => exact ih.2
  | call _ _ ih ih' => exact Reads.call ih (ih'.1 .round)
  | item _ _ ih ih' => exact Reads.item ih ih'
  | field n _ ih => exact Reads.field ih n
  | power _ _ ih ih' => exact Reads.power ih ih'
  | minus _ ih => exact Reads.sign rfl ih
  | plus _ ih => exact Reads.sign rfl ih
  | @product _ _ _ _ op hop _ _ ih ih' =>
    have hjoin : joining? .product (.mark (.operator op)) = some fun x y => .binary x op y :=
      if_pos hop
    exact Reads.join hjoin ih ih'
  | @sum _ _ _ _ op hop _ _ ih ih' =>
    have hjoin : joining? .sum (.mark (.operator op)) = some fun x y => .binary x op y :=
      if_pos hop
    exact Reads.join hjoin ih ih'
  | comparison _ _ hne ih ih' =>
    exact Reads.comparison ih ih'.1 ih'.2 (by rintro _ ⟨⟩; exact hne)
  | not _ ih => exact Reads.not ih
  | and _ _ ih ih' =>
    have hjoin : joining? .and (.keyword .andKw) = some fun x y => .joined x .and y := rfl
    exact Reads.join hjoin ih ih'
  | or _ _ ih ih' =>
    have hjoin : joining? .or (.keyword .orKw) = some fun x y => .joined x .or y := rfl
    exact Reads.join hjoin ih ih'
  | tuple _ _ ih ih' => exact Reads.tuple ih ih'.2.1
  | looser hle _ ih => exact Reads.loosen ih hle
  | noItems => exact ⟨fun b => .nil b, .comma, fun hne => absurd rfl hne⟩
  | oneItem _ ih =>
    have hmore := ReadsMore.cons ih .nil (by simp)
    rw [List.append_nil] at hmore
    exact ⟨fun _ => .one ih, hmore, fun _ => Reads.singleton ih⟩
  | moreItems _ _ ih ih' =>
    refine ⟨fun b => ?_, .cons ih ih'.2.1 (by simp), fun _ => ?_⟩
    · simpa using ReadsItems.cons ih (ih'.1 b)
    · simpa [Bracket.around] using Reads.set ih (ih'.1 .curly)
  | noEntries => exact ⟨.comma, Reads.emptyDict⟩
  | oneEntry _ _ ih ih' =>
    constructor
    · simpa using ReadsEntries.cons ih ih' .nil
    · simpa [Bracket.around] using Reads.dict ih ih' .nil
  | moreEntries _ _ _ ih ih' ih'' =>
    constructor
    · simpa using ReadsEntries.cons ih ih' ih''.1
    · simpa [Bracket.around] using Reads.dict ih ih' ih''.1
  | noneCompared => exact ⟨.nil, fun _ _ => ReadsCompared.stops_nil⟩
  | moreCompared op _ _ ih ih' =>
    exact ⟨ReadsCompared.cons op ih ih'.1 ih'.2, fun _ r hts _ => ReadsCompared.stops_cons hts r⟩
  | pass => exact ReadsSimple.pass
  | breakLoop => exact ReadsSimple.breakLoop
  | continueLoop => exact ReadsSimple.continueLoop
  | noResult => exact ReadsSimple.noResult
  | result _ ih => exact ReadsSimple.result ih
  | value _ ih => exact ReadsSimple.expression ih
  | assign _ ht _ ih ih' =>
    exact ReadsSimple.assignment_of_target rfl (fun x _ ts hk => assigned_equal x hk ts) ih ht ih'
  | update op _ ht _ ih ih' =>
    exact ReadsSimple.assignment_of_target rfl (fun x _ ts hk => assigned_augmented x hk ts) ih ht ih'
  | lastSimple _ ih => exact ReadsLine.one ih
  | lastWithSemicolon _ ih => exact ReadsLine.semicolon ih
  | moreSimple _ _ ih ih' => exact ReadsLine.cons ih ih'
  | lineSuite _ ih => exact ReadsSuite.of_line ih
  | blockSuite _ ih => exact ReadsSuite.of_block ih
  | noParameters => exact ReadsParameters.nil
  | oneParameter n => exact ReadsParameters.one (k := .identifier n) (by simp)
  | moreParameters n _ ih => exact ReadsParameters.cons (k := .identifier n) (by simp) ih
  | function n _ _ ih ih' => exact ReadsBlock.function (k := .identifier n) ih ih'
  | branch _ ih => exact ReadsBlock.branch ih
  | whileLoop _ _ ih ih' =>
    have hread := ReadsBlock.whileLoop (.of_reads ih) ih'
    rwa [List.append_assoc] at hread
  | forLoop n _ _ ih ih' => exact ReadsBlock.forLoop (k := .identifier n) ih ih'
  | lineStatement _ ih => exact ReadsBlock.line ih
  | plainBranch _ _ ih ih' =>
    have hread := ReadsBranch.plain (.of_reads ih) ih'
    rwa [List.append_assoc] at hread
  | chain _ _ _ ih ih' ih'' =>
    have hread := ReadsBranch.chain (.of_reads ih) ih' ih''
    rwa [List.append_assoc] at hread
  | choice _ _ _ ih ih' ih'' =>
    have hread := ReadsBranch.choice (.of_reads ih) ih' ih''
    rwa [List.append_assoc] at hread
  | noStatements => exact ReadsBlock.nil
  | emptyLine _ ih => exact ReadsBlock.newline ih
  | moreStatements _ _ ih ih' => exact ReadsBlock.append ih ih'
  | program _ ih => exact fun ts hts => ReadsBlock.ofTokens ih hts

end Growth.Code
