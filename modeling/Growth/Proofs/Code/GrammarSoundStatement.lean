import Growth.Proofs.Code.GrammarSound
import Growth.Proofs.Code.StatementResult

/-! Statements, blocks and programs that are read are derived by the grammar. -/

namespace Growth.Code

open Outcome

theorem Outcome.length_le_of_value? {α : Type} {n : Nat} {o : Outcome α n} {v : α}
    {rest : List Token} (h : o.value? = some (v, rest)) : rest.length ≤ n := by
  cases o with
  | done v rest hrest =>
    cases h
    exact hrest
  | failed => exact nomatch h

theorem spans_of_identifier? {ts : List Token} {n : String} {rest : List Token}
    (h : identifier? ts = some (n, rest)) :
    Spans ts [.identifier n] rest ∧ rest.length < ts.length := by
  rw [← expectIdentifier_value?] at h
  exact spans_of_expectIdentifier h

/-! ### Lines -/

theorem derives_of_assigned {x : Expression} {ts : List Token} {s : Statement}
    {ks : List Kind} {rest : List Token} (hx : Derives (.expression .tuple) ks x)
    (h : assigned x ts = some (s, rest)) :
    ∃ ks', Spans ts ks' rest ∧ Derives .simple (ks ++ ks') s := by
  have hassigned := h
  rw [assigned, readAssigned.eq_def] at h
  split at h
  · rename_i place stop ts
    rw [assigned_equal x rfl] at hassigned
    obtain ⟨target, htarget, hvalue⟩ := Option.bind_eq_some_iff.mp hassigned
    obtain ⟨⟨y, rest₁⟩, hy, ⟨⟩⟩ := Option.map_eq_some_iff.mp hvalue
    obtain ⟨ks', hs, hd⟩ := derives_of_read .tuple ts hy
    exact ⟨_, hs.cons rfl, .assign hx htarget hd⟩
  · rename_i op place stop ts
    rw [assigned_augmented x rfl] at hassigned
    obtain ⟨target, htarget, hvalue⟩ := Option.bind_eq_some_iff.mp hassigned
    obtain ⟨⟨y, rest₁⟩, hy, ⟨⟩⟩ := Option.map_eq_some_iff.mp hvalue
    obtain ⟨ks', hs, hd⟩ := derives_of_read .tuple ts hy
    exact ⟨_, hs.cons rfl, .update op hx htarget hd⟩
  · cases h
    exact ⟨[], .refl _, by simpa using Derives.value hx⟩

theorem simple_nil : simple [] = none := by
  simp [simple, readSimple, readAt, unexpected, Outcome.bind]

theorem derives_of_simple {ts : List Token} {s : Statement} {rest : List Token}
    (h : simple ts = some (s, rest)) : ∃ ks, Spans ts ks rest ∧ Derives .simple ks s := by
  cases ts with
  | nil => cases simple_nil.symm.trans h
  | cons t ts =>
    by_cases hown : ∃ k : Keyword, k.isOwn = true ∧ t.kind = .keyword k
    · obtain ⟨k, hk, ht⟩ := hown
      unfold Keyword.isOwn at hk
      split at hk
      · rw [simple_of_pass ht] at h
        cases h
        exact ⟨_, (Spans.refl _).cons ht, .pass⟩
      · rw [simple_of_break ht] at h
        cases h
        exact ⟨_, (Spans.refl _).cons ht, .breakLoop⟩
      · rw [simple_of_continue ht] at h
        cases h
        exact ⟨_, (Spans.refl _).cons ht, .continueLoop⟩
      · rw [simple_of_return ht] at h
        split at h
        · cases h
          exact ⟨_, (Spans.refl _).cons ht, .noResult⟩
        · obtain ⟨⟨x, rest₁⟩, hx, ⟨⟩⟩ := Option.map_eq_some_iff.mp h
          obtain ⟨ks, hs, hd⟩ := derives_of_read .tuple ts hx
          exact ⟨_, hs.cons ht, .result hd⟩
      · cases hk
    · rw [simple_of_expression fun k hk ht => hown ⟨k, hk, ht⟩] at h
      obtain ⟨⟨x, rest₁⟩, hx, hassigned⟩ := Option.bind_eq_some_iff.mp h
      obtain ⟨ks, hs, hd⟩ := derives_of_read .tuple (t :: ts) hx
      obtain ⟨ks', hs', hd'⟩ := derives_of_assigned hd hassigned
      exact ⟨_, hs.trans hs', hd'⟩

theorem derives_of_line (ts : List Token) {ss : List Statement} {rest : List Token}
    (h : line ts = some (ss, rest)) : ∃ ks, Spans ts ks rest ∧ Derives .line ks ss := by
  rw [line_eq] at h
  obtain ⟨⟨s, rest₁⟩, hsimple, hmore⟩ := Option.bind_eq_some_iff.mp h
  obtain ⟨ks, hs, hd⟩ := derives_of_simple hsimple
  have hle := hs.length_le
  dsimp only at hmore
  split at hmore
  · rename_i hnewline
    cases hmore
    exact ⟨_, hs.trans (spans_of_after? hnewline).1, .lastSimple hd⟩
  · rename_i rest₂ _ hsemicolon
    obtain ⟨hs₁, hlt⟩ := spans_of_after? hsemicolon
    split at hmore
    · rename_i hnewline
      cases hmore
      exact ⟨_, hs.trans (hs₁.trans (spans_of_after? hnewline).1), .lastWithSemicolon hd⟩
    · obtain ⟨⟨others, rest₃⟩, hothers, ⟨⟩⟩ := Option.map_eq_some_iff.mp hmore
      obtain ⟨ks', hs', hd'⟩ := derives_of_line rest₂ hothers
      exact ⟨_, hs.trans (hs₁.trans hs'), .moreSimple hd hd'⟩
  · cases hmore
termination_by ts.length
decreasing_by omega

/-! ### Headers -/

theorem derives_of_readParameters (ts : List Token) {ps : List String} {rest : List Token}
    (h : (readParameters ts).value? = some (ps, rest)) :
    ∃ ks, Spans ts (ks ++ [Kind.mark (.closing .round)]) rest ∧ Derives .parameters ks ps := by
  fun_induction readParameters ts generalizing ps with
  | case1 =>
    cases h
    exact ⟨[], (Spans.refl _).cons rfl, .noParameters⟩
  | case2 n _ _ _ _ ts ih =>
    rw [value?_past, value?_past, value?_map] at h
    obtain ⟨⟨others, rest⟩, hothers, ⟨⟩⟩ := Option.map_eq_some_iff.mp h
    obtain ⟨ks, hs, hd⟩ := ih hothers
    exact ⟨_, (hs.cons rfl).cons rfl, .moreParameters n hd⟩
  | case3 n =>
    rw [value?_past, value?_map, expectClosing_value?, Option.map_map] at h
    obtain ⟨rest, hclosing, ⟨⟩⟩ := Option.map_eq_some_iff.mp h
    exact ⟨_, (spans_of_after? hclosing).1.cons rfl, .oneParameter n⟩
  | case4 => exact nomatch h

theorem derives_of_readSignature {ts : List Token} {n : String} {ps : List String}
    {rest : List Token} (h : (readSignature ts).value? = some ((n, ps), rest)) :
    ∃ ks, Spans ts (.identifier n :: (Bracket.round.around ks ++ [Kind.mark .colon])) rest ∧
      Derives .parameters ks ps := by
  rw [readSignature_value?] at h
  obtain ⟨⟨n, rest₁⟩, hn, h⟩ := Option.bind_eq_some_iff.mp h
  obtain ⟨rest₂, hopening, h⟩ := Option.bind_eq_some_iff.mp h
  obtain ⟨⟨ps, rest₃⟩, hps, h⟩ := Option.bind_eq_some_iff.mp h
  obtain ⟨rest₄, hcolon, ⟨⟩⟩ := Option.map_eq_some_iff.mp h
  obtain ⟨ks, hs, hd⟩ := derives_of_readParameters rest₂ hps
  refine ⟨ks, ?_, hd⟩
  have hspans := (spans_of_identifier? hn).1.trans <| (spans_of_after? hopening).1.trans <|
    hs.trans (spans_of_after? hcolon).1
  simpa [Bracket.around] using hspans

theorem derives_of_readCounter {ts : List Token} {n : String} {x : Expression}
    {rest : List Token} (h : (readCounter ts).value? = some ((n, x), rest)) :
    ∃ ks, Spans ts (.identifier n :: .keyword .inKw :: (ks ++ [Kind.mark .colon])) rest ∧
      Derives (.expression .tuple) ks x := by
  rw [readCounter_value?] at h
  obtain ⟨⟨n, rest₁⟩, hn, h⟩ := Option.bind_eq_some_iff.mp h
  obtain ⟨rest₂, hin, h⟩ := Option.bind_eq_some_iff.mp h
  obtain ⟨⟨x, rest₃⟩, hx, h⟩ := Option.bind_eq_some_iff.mp h
  obtain ⟨rest₄, hcolon, ⟨⟩⟩ := Option.map_eq_some_iff.mp h
  obtain ⟨ks, hs, hd⟩ := derives_of_read .tuple rest₂ hx
  exact ⟨ks, (spans_of_identifier? hn).1.trans <| (spans_of_after? hin).1.trans <|
    hs.trans (spans_of_after? hcolon).1, hd⟩

theorem derives_of_condition {ts : List Token} {x : Expression} {rest : List Token}
    (h : condition ts = some (x, rest)) :
    ∃ ks, Spans ts (ks ++ [Kind.mark .colon]) rest ∧ Derives (.expression .or) ks x := by
  rw [condition_eq] at h
  obtain ⟨⟨x, rest₁⟩, hx, h⟩ := Option.bind_eq_some_iff.mp h
  obtain ⟨rest₂, hcolon, ⟨⟩⟩ := Option.map_eq_some_iff.mp h
  obtain ⟨ks, hs, hd⟩ := derives_of_read .or ts hx
  exact ⟨ks, hs.trans (spans_of_after? hcolon).1, hd⟩

/-! ### Statements with bodies -/

mutual

theorem derives_of_block (ts : List Token) {ss : List Statement} {rest : List Token}
    (h : block ts = some (ss, rest)) : ∃ ks, Spans ts ks rest ∧ Derives .block ks ss := by
  match ts with
  | [] =>
    rw [block_nil] at h
    cases h
    exact ⟨[], .refl _, .noStatements⟩
  | t :: ts =>
    by_cases hnewline : t.kind = .newline
    · rw [block_newline hnewline] at h
      obtain ⟨ks, hs, hd⟩ := derives_of_block ts h
      exact ⟨_, hs.cons hnewline, .emptyLine hd⟩
    by_cases hend : t.kind = .dedent ∨ t.kind = .endOfFile
    · rw [block_end hend] at h
      cases h
      exact ⟨[], .refl _, .noStatements⟩
    have hbetween : t.kind.isBetween = false := by
      unfold Kind.isBetween
      split <;> simp_all
    rw [block_cons hbetween] at h
    obtain ⟨⟨first, rest₁⟩, hfirst, hmore⟩ := Option.bind_eq_some_iff.mp h
    obtain ⟨ks, hs, hd⟩ := derives_of_statement t ts hfirst
    have hle := length_le_of_value? hfirst
    obtain ⟨⟨others, rest₂⟩, hothers, ⟨⟩⟩ := Option.map_eq_some_iff.mp hmore
    obtain ⟨ks', hs', hd'⟩ := derives_of_block rest₁ hothers
    exact ⟨_, hs.trans hs', .moreStatements hd hd'⟩
termination_by 4 * ts.length
decreasing_by all_goals (simp only [List.length_cons]; omega)

theorem derives_of_statement (t : Token) (ts : List Token) {ss : List Statement}
    {rest : List Token} (h : statement t ts = some (ss, rest)) :
    ∃ ks, Spans (t :: ts) ks rest ∧ Derives .statement ks ss := by
  by_cases hbody : ∃ k : Keyword, k.hasBody = true ∧ t.kind = .keyword k
  · obtain ⟨k, hk, ht⟩ := hbody
    unfold Keyword.hasBody at hk
    split at hk
    · rw [statement_function ht] at h
      obtain ⟨⟨⟨n, ps⟩, rest₁⟩, hheader, hbody⟩ := Option.bind_eq_some_iff.mp h
      obtain ⟨ks, hs, hd⟩ := derives_of_readSignature hheader
      have hle := hs.length_le
      obtain ⟨⟨b, rest₂⟩, hb, ⟨⟩⟩ := Option.map_eq_some_iff.mp hbody
      obtain ⟨ks', hs', hd'⟩ := derives_of_suite rest₁ hb
      exact ⟨_, by simpa using (hs.trans hs').cons ht, .function n hd hd'⟩
    · rw [statement_branch ht] at h
      obtain ⟨⟨s, rest₁⟩, hbranch, ⟨⟩⟩ := Option.map_eq_some_iff.mp h
      obtain ⟨ks, hs, hd⟩ := derives_of_branch ts hbranch
      exact ⟨_, hs.cons ht, .branch hd⟩
    · rw [statement_while ht] at h
      obtain ⟨⟨x, rest₁⟩, hheader, hbody⟩ := Option.bind_eq_some_iff.mp h
      obtain ⟨ks, hs, hd⟩ := derives_of_condition hheader
      have hle := hs.length_le
      obtain ⟨⟨b, rest₂⟩, hb, ⟨⟩⟩ := Option.map_eq_some_iff.mp hbody
      obtain ⟨ks', hs', hd'⟩ := derives_of_suite rest₁ hb
      exact ⟨_, by simpa using (hs.trans hs').cons ht, .whileLoop hd hd'⟩
    · rw [statement_for ht] at h
      obtain ⟨⟨⟨n, x⟩, rest₁⟩, hheader, hbody⟩ := Option.bind_eq_some_iff.mp h
      obtain ⟨ks, hs, hd⟩ := derives_of_readCounter hheader
      have hle := hs.length_le
      obtain ⟨⟨b, rest₂⟩, hb, ⟨⟩⟩ := Option.map_eq_some_iff.mp hbody
      obtain ⟨ks', hs', hd'⟩ := derives_of_suite rest₁ hb
      exact ⟨_, by simpa using (hs.trans hs').cons ht, .forLoop n hd hd'⟩
    · exact nomatch hk
  · rw [statement_line fun k hk ht => hbody ⟨k, hk, ht⟩] at h
    obtain ⟨ks, hs, hd⟩ := derives_of_line (t :: ts) h
    exact ⟨ks, hs, .lineStatement hd⟩
termination_by 4 * ts.length + 3
decreasing_by all_goals omega

theorem derives_of_branch (ts : List Token) {s : Statement} {rest : List Token}
    (h : branch ts = some (s, rest)) : ∃ ks, Spans ts ks rest ∧ Derives .branch ks s := by
  rw [branch_eq] at h
  obtain ⟨⟨x, rest₁⟩, hheader, h⟩ := Option.bind_eq_some_iff.mp h
  obtain ⟨ks, hs, hd⟩ := derives_of_condition hheader
  have hle := hs.length_le
  obtain ⟨⟨b, rest₂⟩, hb, hother⟩ := Option.bind_eq_some_iff.mp h
  obtain ⟨ks', hs', hd'⟩ := derives_of_suite rest₁ hb
  have hle' := hs'.length_le
  dsimp only at hother
  split at hother
  · rename_i rest₃ helif
    obtain ⟨hs₁, hlt⟩ := spans_of_after? helif
    obtain ⟨⟨next, rest₄⟩, hnext, ⟨⟩⟩ := Option.map_eq_some_iff.mp hother
    obtain ⟨ks'', hs'', hd''⟩ := derives_of_branch rest₃ hnext
    exact ⟨_, by simpa using hs.trans (hs'.trans (hs₁.trans hs'')), .chain hd hd' hd''⟩
  · rename_i rest₃ _ helse
    obtain ⟨hs₁, hlt₁⟩ := spans_of_after? helse
    obtain ⟨rest₄, hcolon, hother⟩ := Option.bind_eq_some_iff.mp hother
    obtain ⟨hs₂, hlt₂⟩ := spans_of_after? hcolon
    obtain ⟨⟨b', rest₅⟩, hb', ⟨⟩⟩ := Option.map_eq_some_iff.mp hother
    obtain ⟨ks'', hs'', hd''⟩ := derives_of_suite rest₄ hb'
    exact ⟨_, by simpa using hs.trans (hs'.trans (hs₁.trans (hs₂.trans hs''))),
      .choice hd hd' hd''⟩
  · cases hother
    exact ⟨_, by simpa using hs.trans hs', .plainBranch hd hd'⟩
termination_by 4 * ts.length + 2
decreasing_by all_goals omega

theorem derives_of_suite (ts : List Token) {ss : List Statement} {rest : List Token}
    (h : suite ts = some (ss, rest)) : ∃ ks, Spans ts ks rest ∧ Derives .suite ks ss := by
  match ts with
  | [] =>
    rw [suite_line (by simp)] at h
    obtain ⟨ks, hs, hd⟩ := derives_of_line [] h
    exact ⟨ks, hs, .lineSuite hd⟩
  | t :: ts =>
    by_cases hnewline : t.kind = .newline
    · rw [suite_newline hnewline] at h
      obtain ⟨rest₁, hindent, h⟩ := Option.bind_eq_some_iff.mp h
      obtain ⟨hs₁, hlt⟩ := spans_of_after? hindent
      obtain ⟨⟨b, rest₂⟩, hb, hclosed⟩ := Option.bind_eq_some_iff.mp h
      obtain ⟨ks, hs, hd⟩ := derives_of_block rest₁ hb
      obtain ⟨rest₃, hdedent, ⟨⟩⟩ := Option.map_eq_some_iff.mp hclosed
      have hspans := hs₁.trans (hs.trans (spans_of_after? hdedent).1)
      exact ⟨_, hspans.cons hnewline, .blockSuite hd⟩
    · rw [suite_line (by simpa using hnewline)] at h
      obtain ⟨ks, hs, hd⟩ := derives_of_line (t :: ts) h
      exact ⟨ks, hs, .lineSuite hd⟩
termination_by 4 * ts.length + 1
decreasing_by all_goals (simp only [List.length_cons]; omega)

end

end Growth.Code
