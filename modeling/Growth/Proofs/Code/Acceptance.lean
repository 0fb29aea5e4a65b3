import Growth.Proofs.Code.GrammarComplete
import Growth.Proofs.Code.GrammarSoundStatement
import Mathlib

/-! Which tokens make a program, and which program they make. -/

namespace Growth.Code

/-- The end of the text stands in no form but a program. -/
theorem Derives.endOfFile_not_mem {f : Form} {ks : List Kind} {t : f.Tree} (h : Derives f ks t)
    (hf : f ≠ .program) : .endOfFile ∉ ks := by
  have hcomparison : ∀ op : Comparison, .endOfFile ∉ op.kinds := by
    intro op
    cases op <;> simp [Comparison.kinds]
  induction h with
  | program => exact absurd rfl hf
  | _ => simp_all [Bracket.around]

/-- The tokens of a text end with the only one that says where the text ends. -/
theorem Scanner.tokens_eq_append {s : Scanner} {ts : List Token} (h : s.tokens = .ok ts) :
    ∃ (init : List Token) (last : Token), ts = init ++ [last] ∧ last.kind = .endOfFile ∧
      ∀ t ∈ init, t.kind ≠ .endOfFile := by
  fun_induction Scanner.tokens s generalizing ts with
  | case1 => cases h
  | case2 _ t _ _ hend =>
    cases h
    exact ⟨[], t, rfl, hend, by simp⟩
  | case3 _ t s' _ hmore ih =>
    cases htokens : s'.tokens with
    | error => rw [htokens] at h; cases h
    | ok ts' =>
      rw [htokens] at h
      cases h
      obtain ⟨init, last, rfl, hlast, hinit⟩ := ih htokens
      exact ⟨t :: init, last, rfl, hlast, List.forall_mem_cons.mpr ⟨hmore, hinit⟩⟩

/-- What makes a program is a block, after which there is nothing or the end of the text. -/
theorem block_of_ofTokens {ts : List Token} {m : Module} (h : Module.ofTokens ts = .ok m) :
    ∃ rest, block ts = some (m.body, rest) ∧ ∀ t ∈ rest.head?, t.kind = .endOfFile := by
  unfold Module.ofTokens at h
  split at h
  · cases h
  · rename_i body rest _ hblock
    have hvalue : block ts = some (body, rest) := by rw [block, hblock]; rfl
    split at h
    · split at h
      · rename_i hend
        cases h
        exact ⟨_, hvalue, by simpa using hend⟩
      · cases h
    · cases h
      exact ⟨[], hvalue, by simp⟩

/-- If the tokens of a text make a program, then the grammar derives it. -/
theorem derives_of_ofTokens {source : String} {ts : List Token} (h : tokens source = .ok ts)
    {m : Module} (hm : Module.ofTokens ts = .ok m) :
    Derives .program (ts.map Token.kind) m := by
  obtain ⟨init, last, rfl, hlast, hinit⟩ := Scanner.tokens_eq_append h
  obtain ⟨rest, hblock, hrest⟩ := block_of_ofTokens hm
  obtain ⟨ks, hs, hd⟩ := derives_of_block _ hblock
  have hks := hd.endOfFile_not_mem nofun
  have hkinds : init.map Token.kind ++ [Kind.endOfFile] = ks ++ rest.map Token.kind := by
    rw [← hlast, ← hs, List.map_append, List.map_singleton]
  have hnone : Kind.endOfFile ∉ init.map Token.kind := by simpa using hinit
  -- The block leaves the end of the text, so it takes the tokens before it.
  cases rest with
  | nil =>
    refine absurd ?_ hks
    rw [List.map_nil, List.append_nil] at hkinds
    simp [← hkinds]
  | cons t rest =>
    rw [List.map_cons, hrest t rfl] at hkinds
    obtain ⟨rfl, -, -⟩ := (List.append_cons_inj_of_notMem hnone List.not_mem_nil).mp hkinds
    rw [List.map_append, List.map_singleton, hlast]
    exact .program hd

/-- The tokens of a text make a program exactly if the grammar derives it from their kinds. -/
theorem Module.ofTokens_eq_ok_iff {source : String} {ts : List Token} (h : tokens source = .ok ts)
    (m : Module) : Module.ofTokens ts = .ok m ↔ Derives .program (ts.map Token.kind) m :=
  ⟨derives_of_ofTokens h, fun hd => hd.reading ts rfl⟩

/-- The tokens of a call with a comma after its argument. -/
def callTokens : List Token :=
  [⟨.identifier "f", ⟨0, ⟨1, 0⟩⟩, 1⟩, ⟨.mark (.opening .round), ⟨1, ⟨1, 1⟩⟩, 2⟩,
    ⟨.identifier "x", ⟨2, ⟨1, 2⟩⟩, 3⟩, ⟨.mark .comma, ⟨3, ⟨1, 3⟩⟩, 4⟩,
    ⟨.mark (.closing .round), ⟨4, ⟨1, 4⟩⟩, 5⟩, ⟨.newline, ⟨5, ⟨1, 5⟩⟩, 6⟩,
    ⟨.endOfFile, ⟨6, ⟨2, 0⟩⟩, 6⟩]

set_option maxRecDepth 4000 in
/-- Those tokens are derived as the call and as nothing else. -/
theorem Module.ofTokens_eq_ok_iff_call : tokens "f(x,)\n" = .ok callTokens ∧
    ∀ m, Derives .program (callTokens.map Token.kind) m ↔
      m = ⟨[.expression (.call (.name "f") [.name "x"])]⟩ := by
  have htokens : tokens "f(x,)\n" = .ok callTokens := by cbv
  have hread : Module.ofTokens callTokens =
      .ok ⟨[.expression (.call (.name "f") [.name "x"])]⟩ := by cbv
  refine ⟨htokens, fun m => ?_⟩
  rw [← Module.ofTokens_eq_ok_iff htokens m, hread, Except.ok.injEq, eq_comm]

end Growth.Code
