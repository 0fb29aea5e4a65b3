import Growth.Proofs.Code.Acceptance
import Growth.Proofs.Code.WholeLines

/-! Programs one after the other. What the end of the first text closes, the first line of the
second closes if the second text is a program, since no program begins inside a block. -/

namespace Growth.Code

/-! ### Kinds of tokens that make a program -/

/-- No block begins at once. -/
def Unindented (ks : List Kind) : Prop :=
  ks.head? ≠ some .indent

theorem unindented_nil : Unindented [] := nofun

theorem unindented_cons {k : Kind} {ks : List Kind} : Unindented (k :: ks) ↔ k ≠ .indent := by
  simp [Unindented]

theorem Unindented.append {ks ks' : List Kind} (h : Unindented ks) (h' : Unindented ks') :
    Unindented (ks ++ ks') := by
  cases ks with
  | nil => exact h'
  | cons => exact h

theorem Unindented.of_append {ks ks' : List Kind} (h : Unindented (ks ++ ks')) :
    Unindented ks := by
  cases ks with
  | nil => exact unindented_nil
  | cons => exact h

theorem foldl_brackets_map {α : Type} {f : α → Kind} (hf : ∀ a bs, (f a).brackets bs = bs)
    (as : List α) (bs : List Bracket) : (as.map f).foldl Kind.brackets bs = bs := by
  induction as with
  | nil => rfl
  | cons a as ih => rw [List.map_cons, List.foldl_cons, hf, ih]

namespace Derives

variable {f : Form} {ks : List Kind} {t : f.Tree}

theorem unindented (h : Derives f ks t) : Unindented ks := by
  have hcomparison : ∀ op : Comparison, Unindented op.kinds := by
    intro op
    cases op <;> simp [Comparison.kinds, unindented_cons]
  induction h with
  | @strings ss hne => cases ss <;> simp [unindented_cons, unindented_nil]
  | _ => simp_all [Bracket.around, Unindented.append, unindented_cons, unindented_nil]

/-- What is derived leaves the brackets as they were. -/
theorem foldl_brackets (h : Derives f ks t) (bs : List Bracket) :
    ks.foldl Kind.brackets bs = bs := by
  have hcomparison : ∀ (op : Comparison) bs, op.kinds.foldl Kind.brackets bs = bs := by
    intro op bs
    cases op <;> rfl
  induction h generalizing bs with
  | strings => exact foldl_brackets_map (fun _ _ => rfl) _ bs
  | _ => simp_all [Bracket.around, Kind.brackets]

/-- Statements can be put in front of a block. -/
theorem append_block {ks' : List Kind} {ss' : List Statement} (h : Derives f ks t)
    (h' : Derives .block ks' ss') : match f, t with
      | .block, ss => Derives .block (ks ++ ks') (ss ++ ss')
      | _, _ => True := by
  induction h with
  | noStatements => exact h'
  | emptyLine _ ih => exact .emptyLine ih
  | moreStatements hfirst _ _ ih =>
    dsimp only
    rw [List.append_assoc, List.append_assoc]
    exact .moreStatements hfirst ih
  | _ => trivial

end Derives

/-! ### Texts that make a program -/

theorem kinds_eq_ok_iff {source : String} {ks : List Kind} :
    kinds source = .ok ks ↔ ∃ ts, tokens source = .ok ts ∧ ts.map Token.kind = ks := by
  rw [kinds, Scanner.kinds]
  change _ ↔ ∃ ts, (Scanner.ofText source).tokens = .ok ts ∧ _
  cases (Scanner.ofText source).tokens <;> simp

theorem block_of_ofText {source : String} {m : Module} (h : Module.ofText source = .ok m) :
    ∃ ks, kinds source = .ok (ks ++ [Kind.endOfFile]) ∧ Derives .block ks m.body := by
  unfold Module.ofText at h
  split at h
  · rename_i ts hts
    have hprogram := derives_of_ofTokens hts h
    generalize hks : ts.map Token.kind = ks at hprogram
    cases hprogram with
    | program hblock => exact ⟨_, kinds_eq_ok_iff.mpr ⟨ts, hts, hks⟩, hblock⟩
  · cases h

theorem ofText_of_block {source : String} {ks : List Kind} {ss : List Statement}
    (hkinds : kinds source = .ok (ks ++ [Kind.endOfFile])) (h : Derives .block ks ss) :
    Module.ofText source = .ok ⟨ss⟩ := by
  obtain ⟨ts, hts, hks⟩ := kinds_eq_ok_iff.mp hkinds
  rw [Module.ofText, hts]
  exact (Derives.program h).reading ts hks

/-! ### What lines leave behind -/

namespace Stand

/-- The brackets that are open where a line is read. -/
def brackets : Stand → List Bracket
  | starting _ => []
  | inside bs _ _ => bs

/-- The widths of the blocks that are open where a line is read. -/
def widths : Stand → List Nat
  | starting ws => ws
  | inside _ ws _ => ws

/-- The next line is read behind tokens of the kinds, inside blocks that are indented. -/
structure Behind (σ : Stand) (ks : List Kind) : Prop where
  brackets : σ.brackets = stillOpen ks
  pos : ∀ w ∈ σ.widths, 0 < w

end Stand

section

variable {σ : Stand} {ended : Bool} {line : List Char} {lines : List (List Char)}
  {ks : List Kind} {ws : List Nat} {width : Nat} {bs : List Bracket} {r : List Kind × Stand}

theorem Words.brackets_behind {r : Words} (h : r.brackets = r.kinds.foldl Kind.brackets bs)
    (ended : Bool) (ws : List Nat) (hasTokens : Bool) : (r.behind ended ws hasTokens).2.brackets =
      (r.behind ended ws hasTokens).1.foldl Kind.brackets bs := by
  unfold Words.behind
  split
  · rename_i hlast
    simp only [Bool.and_eq_true, List.isEmpty_iff] at hlast
    rw [List.foldl_append, ← h, hlast.2]
    rfl
  · exact h

theorem Words.widths_behind (r : Words) (ended : Bool) (ws : List Nat) (hasTokens : Bool) :
    (r.behind ended ws hasTokens).2.widths = ws := by
  unfold Words.behind
  split <;> rfl

theorem of_moved {m : List Kind × List Nat} (h : moved ws width = .ok m) (hpos : ∀ w ∈ ws, 0 < w) :
    (∀ bs, m.1.foldl Kind.brackets bs = bs) ∧ ∀ w ∈ m.2, 0 < w := by
  unfold moved at h
  split at h
  · rename_i hwide
    cases h
    exact ⟨fun _ => rfl, List.forall_mem_cons.mpr ⟨Nat.zero_lt_of_lt hwide, hpos⟩⟩
  split at h
  · cases h
    refine ⟨foldl_brackets_map (fun _ _ => rfl) _, fun w hw => hpos w ?_⟩
    exact (List.dropWhile_suffix _).subset hw
  · cases h

theorem Stand.Behind.read (h : σ.Behind ks) (hread : σ.read ended line = .ok r) :
    r.2.Behind (ks ++ r.1) := by
  obtain ⟨hbrackets, hpos⟩ := h
  have hopen : stillOpen (ks ++ r.1) = r.1.foldl Kind.brackets σ.brackets := by
    rw [stillOpen_append, hbrackets]
  cases σ with
  | inside bs ws hasTokens =>
    obtain ⟨r, hwords, rfl⟩ := map_eq_ok_iff.mp hread
    refine ⟨(Words.brackets_behind (of_words hwords).1 _ _ _).trans hopen.symm, ?_⟩
    rw [Words.widths_behind]
    exact hpos
  | starting ws =>
    rw [Stand.read] at hread
    split at hread
    · cases hread
      exact ⟨hopen.symm, hpos⟩
    · obtain ⟨m, hm, hbody⟩ := bind_eq_ok_iff.mp hread
      obtain ⟨r', hr', rfl⟩ := map_eq_ok_iff.mp hbody
      obtain ⟨r, hwords, rfl⟩ := map_eq_ok_iff.mp hr'
      obtain ⟨hfold, hpos⟩ := of_moved hm hpos
      refine ⟨?_, ?_⟩
      · rw [hopen]
        change _ = (m.1 ++ (r.behind ended m.2 false).1).foldl Kind.brackets []
        rw [List.foldl_append, hfold]
        exact Words.brackets_behind (of_words hwords).1 _ _ _
      · change ∀ w ∈ (r.behind ended m.2 false).2.widths, 0 < w
        rw [Words.widths_behind]
        exact hpos

theorem Stand.Behind.run (h : σ.Behind ks) (hrun : σ.run lines = .ok r) :
    r.2.Behind (ks ++ r.1) := by
  induction lines generalizing σ ks r with
  | nil =>
    cases hrun
    rw [List.append_nil]
    exact h
  | cons line lines ih =>
    obtain ⟨r, hread, hmore⟩ := bind_eq_ok_iff.mp hrun
    obtain ⟨r', hr', rfl⟩ := map_eq_ok_iff.mp hmore
    have hbehind := ih (h.read hread) hr'
    rw [List.append_assoc] at hbehind
    exact hbehind

/-- Where the text ends behind a line, what is open is closed. -/
theorem Stand.kinds_end (σ : Stand) : σ.kinds [[]] = .ok σ.closing := by
  cases σ with
  | starting ws => rfl
  | inside bs ws hasTokens =>
    rw [kinds, read, words_tokenless rfl]
    simp [Except.map, Except.bind, Words.behind, kinds]

theorem Stand.foldl_closing (σ : Stand) (bs : List Bracket) :
    σ.closing.foldl Kind.brackets bs = bs := by
  cases σ with
  | starting ws =>
    rw [closing, List.foldl_append, foldl_brackets_map fun _ _ => rfl]
    rfl
  | inside bs' ws hasTokens =>
    rw [closing, List.foldl_append, List.foldl_append, foldl_brackets_map fun _ _ => rfl]
    cases hasTokens <;> rfl

theorem moved_zero (hpos : ∀ w ∈ ws, 0 < w) : moved ws 0 = .ok (ws.map fun _ => .dedent, []) := by
  have hclosed : ws.takeWhile (0 < ·) = ws :=
    List.takeWhile_eq_self_iff.mpr fun w hw => decide_eq_true (hpos w hw)
  have hleft : ws.dropWhile (0 < ·) = [] :=
    List.dropWhile_eq_nil_iff.mpr fun w hw => decide_eq_true (hpos w hw)
  rw [moved, if_neg (Nat.not_lt_zero _), hclosed, hleft]
  rfl

/-- In front of a line that begins in no block all blocks are closed. -/
theorem Stand.read_starting (hpos : ∀ w ∈ ws, 0 < w) (h : (starting []).read ended line = .ok r)
    (hr : Unindented r.1) :
    r = ([], starting []) ∧ (starting ws).read ended line = .ok ([], starting ws) ∨
      (starting ws).read ended line = .ok (ws.map (fun _ => .dedent) ++ r.1, r.2) := by
  rw [read] at h ⊢
  split at h
  · rename_i hline
    cases h
    exact .inl ⟨rfl, if_pos hline⟩
  · rename_i hline
    rw [if_neg hline]
    obtain ⟨m, hm, hbody⟩ := bind_eq_ok_iff.mp h
    obtain ⟨r, hr', rfl⟩ := map_eq_ok_iff.mp hbody
    rcases Nat.eq_zero_or_pos (level (line.takeWhile isInlineBlank)) with hlevel | hlevel
    · rw [hlevel, moved_zero (List.forall_mem_nil _)] at hm
      obtain rfl := Except.ok.inj hm
      rw [hlevel, moved_zero hpos]
      right
      change (Except.map _ _).map _ = _
      rw [hr']
      rfl
    · have hopens : moved [] (level (line.takeWhile isInlineBlank)) =
          .ok ([.indent], [level (line.takeWhile isInlineBlank)]) := if_pos hlevel
      rw [hopens] at hm
      obtain rfl := Except.ok.inj hm
      exact absurd rfl hr

/-- Lines that begin in no block close the blocks in front of them. -/
theorem Stand.kinds_starting (hpos : ∀ w ∈ ws, 0 < w)
    (h : (starting []).kinds lines = .ok ks) (hks : Unindented ks) :
    (starting ws).kinds lines = .ok (ws.map (fun _ => .dedent) ++ ks) := by
  induction lines generalizing ks with
  | nil =>
    cases h
    rfl
  | cons line lines ih =>
    obtain ⟨r, hread, hrest⟩ := bind_eq_ok_iff.mp h
    obtain ⟨more, hmore, rfl⟩ := map_eq_ok_iff.mp hrest
    obtain ⟨rfl, hread'⟩ | hread' := read_starting hpos hread hks.of_append
    · rw [kinds, hread']
      change ((starting ws).kinds lines).map _ = _
      rw [ih hmore hks]
      rfl
    · rw [kinds, hread']
      change (r.2.kinds lines).map _ = _
      rw [hmore]
      exact congrArg Except.ok (List.append_assoc _ _ _)

/-- Behind whole lines that are a program a line begins, inside the blocks that the end of the text
closes. -/
theorem Stand.run_block {ss : List Statement}
    (hlast : ∀ line ∈ lines.getLast?, line.getLast? ≠ some '\\')
    (h : (starting []).kinds (lines ++ [[]]) = .ok (ks ++ [Kind.endOfFile]))
    (hblock : Derives .block ks ss) :
    ∃ front ws, (starting []).run lines = .ok (front, starting ws) ∧ (∀ w ∈ ws, 0 < w) ∧
      ks = front ++ ws.map fun _ => .dedent := by
  rw [kinds_append (List.cons_ne_nil _ _)] at h
  obtain ⟨⟨front, σ⟩, hrun, hend⟩ := bind_eq_ok_iff.mp h
  rw [kinds_end] at hend
  have hks : front ++ σ.closing = ks ++ [Kind.endOfFile] := Except.ok.inj hend
  have hfresh : σ.Fresh := fresh_of_run (σ := starting []) (fun _ => trivial) hlast hrun
  have hstart : (starting []).Behind [] := ⟨rfl, nofun⟩
  have hbehind : σ.Behind front := hstart.run hrun
  -- No bracket is open, since a program closes all that it opens.
  have hopen : σ.brackets = [] := by
    have hbalanced := (Derives.program hblock).foldl_brackets []
    rw [← hks, List.foldl_append, foldl_closing] at hbalanced
    exact hbehind.brackets.trans hbalanced
  cases σ with
  | inside bs ws hasTokens => exact absurd hopen hfresh
  | starting ws =>
    rw [closing, ← List.append_assoc] at hks
    exact ⟨front, ws, hrun, hbehind.pos, (List.append_cancel_right hks).symm⟩

end

/-- Programs one after the other are the program of their statements. -/
theorem Module.ofText_append {a b : String} (ha : WholeLines a) {m n : Module}
    (hm : Module.ofText a = .ok m) (hn : Module.ofText b = .ok n) :
    Module.ofText (a ++ b) = .ok ⟨m.body ++ n.body⟩ := by
  obtain ⟨ks, hks, hblock⟩ := block_of_ofText hm
  obtain ⟨ks', hks', hblock'⟩ := block_of_ofText hn
  obtain ⟨lines, hlast, hlines⟩ := ha.splitOn
  have hown : a.toList.splitOn '\n' = lines ++ [[]] := by simpa using hlines []
  rw [kinds_eq_lines, hown] at hks
  rw [kinds_eq_lines] at hks'
  obtain ⟨front, ws, hrun, hpos, rfl⟩ := Stand.run_block hlast hks hblock
  have hmore := Stand.kinds_starting hpos hks' (Derives.program hblock').unindented
  refine ofText_of_block ?_ (hblock.append_block hblock')
  rw [kinds_eq_lines, String.toList_append, hlines,
    Stand.kinds_append (List.splitOn_ne_nil _ _), hrun]
  change ((Stand.starting ws).kinds _).map _ = _
  rw [hmore]
  simp [Except.map]

set_option maxRecDepth 4000 in
/-- The first text ends inside a block, behind a comment. -/
theorem Module.ofText_append_branch : Module.ofText ("if a:\n\tb\n  # c\n" ++ "d\n") =
    .ok ⟨[.branch (.name "a") [.expression (.name "b")] [], .expression (.name "d")]⟩ := by
  have hwhole : WholeLines "if a:\n\tb\n  # c\n" := .inr ⟨"if a:\n\tb\n  # c", rfl, by simp⟩
  have hfirst : Module.ofText "if a:\n\tb\n  # c\n" =
      .ok ⟨[.branch (.name "a") [.expression (.name "b")] []]⟩ := by cbv
  have hsecond : Module.ofText "d\n" = .ok ⟨[.expression (.name "d")]⟩ := by cbv
  exact Module.ofText_append hwhole hfirst hsecond

end Growth.Code
