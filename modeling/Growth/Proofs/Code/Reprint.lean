import Growth.Proofs.Code.Acceptance
import Growth.Proofs.Code.PrintedStatement
import Growth.Proofs.Code.TokenKinds
import Growth.Proofs.Code.Walk

/-! Programs that were read from a text. Printing one of them and reading what is printed gives the
program again, unless it has an infinite number, a string with both quotes in it, or a field of a
whole number. -/

namespace Growth.Code

/-! ### What printing keeps -/

/-- The characters of a content that neither are a backslash nor stand after one. -/
def unescaped : List Char → List Char
  | '\\' :: _ :: cs => unescaped cs
  | c :: cs => c :: unescaped cs
  | [] => []

theorem Quotable.of_not_mem {quote : Char} {cs : List Char} (h : Quotable '\n' cs)
    (hquote : quote ∉ unescaped cs) : Quotable quote cs := by
  induction h with
  | nil => exact .nil
  | plain hn _ hb _ ih =>
    rw [unescaped, List.mem_cons, not_or] at hquote
    · exact .plain hn (Ne.symm hquote.1) hb (ih hquote.2)
    · rintro _ _ rfl _
      exact hb rfl
  | escaped hn _ ih =>
    rw [unescaped] at hquote
    exact .escaped hn (ih hquote)

namespace Node

/-- The statements that a node has to have in a text. -/
def body? : Node → Option (List Statement)
  | module m => some m.body
  | statement (.function _ _ body) | statement (.whileLoop _ body)
  | statement (.forLoop _ _ body) | statement (.branch _ body _) => some body
  | _ => none

/-- What is printed for the node itself is read as it is: a number is not infinite, a string has no
quote in it like those around it, but for one after a backslash, and no field is taken of a whole
number. -/
def Survives : Node → Prop
  | expression (.float v) => v ≠ .number false (Binary64.magnitude Binary64.infinite)
  | expression (.string content) => chosenQuote content ∉ unescaped content.toList
  | expression (.field x _) | statement (.assign (.field x _) _)
  | statement (.update (.field x _) _ _) => x.isInteger = false
  | _ => True

/-- No node from this one on lacks statements, and all of them survive. -/
def Kept (n : Node) : Prop :=
  ∀ n' ∈ n.walk, n'.body? ≠ some [] ∧ n'.Survives

theorem kept_iff {n : Node} :
    n.Kept ↔ (n.body? ≠ some [] ∧ n.Survives) ∧ ∀ n' ∈ n.children, n'.Kept := by
  simp only [Kept, n.walk_eq, List.forall_mem_cons, List.mem_flatMap, forall_exists_index, and_imp]
  exact and_congr_right fun _ => ⟨fun h c hc n' => h n' c hc, fun h n' c hc => h c hc n'⟩

variable {n : Node}

theorem Kept.body (h : n.Kept) {b : List Statement} (hb : n.body? = some b) : b ≠ [] := by
  rintro rfl
  exact (kept_iff.mp h).1.1 hb

theorem Kept.survives (h : n.Kept) : n.Survives :=
  (kept_iff.mp h).1.2

theorem Kept.child (h : n.Kept) {n' : Node} (hn' : n' ∈ n.children) : n'.Kept :=
  (kept_iff.mp h).2 n' hn'

end Node

/-! ### What is derived from tokens of a text -/

/-- A tree is printable if what is printed for each of its nodes is read as that node. -/
def Form.Printable : (f : Form) → f.Tree → Prop
  | expression _, x => (Node.expression x).Kept → x.Printable
  | items, xs => (∀ x ∈ xs, (Node.expression x).Kept) → Expression.AllPrintable xs
  | entries, es => (∀ e ∈ es, (Node.expression e.1).Kept ∧ (Node.expression e.2).Kept) →
    Expression.EntriesPrintable es
  | compared, xs => (∀ e ∈ xs, (Node.expression e.2).Kept) → Expression.ComparedPrintable xs
  | simple, s | branch, s => (Node.statement s).Kept → s.Printable
  | line, ss | suite, ss | statement, ss | block, ss =>
    (∀ s ∈ ss, (Node.statement s).Kept) → Statement.AllPrintable ss
  | parameters, ps => ∀ p ∈ ps, Spells p.toList (.identifier p)
  | program, m => (Node.module m).Kept → m.Printable

theorem printableFloat_of_ne {m : Fin (2047 * 2 ^ 52 + 1)}
    (h : Binary64.number false m ≠ .number false (Binary64.magnitude Binary64.infinite)) :
    PrintableFloat (.number false m) := by
  refine ⟨m, rfl, Nat.lt_of_le_of_ne (Nat.le_of_lt_succ m.isLt) fun hm => h ?_⟩
  have hmagnitude : m = Binary64.magnitude Binary64.infinite :=
    Fin.ext (by rw [hm, Binary64.magnitude, Fin.val_mk, min_self])
  rw [hmagnitude]

theorem quotable_join {ss : List String} (h : ∀ s ∈ ss, Quotable '\n' s.toList) :
    Quotable '\n' (String.join ss).toList := by
  induction ss with
  | nil => exact .nil
  | cons s ss ih =>
    rw [List.forall_mem_cons] at h
    rw [String.join_cons, String.toList_append]
    exact h.1.append (ih h.2)

/-- A target is printable if the expression that it was read as is. -/
theorem Target.printable {x : Expression} {t : Target} (ht : x.target? = some t)
    (hx : (Node.expression x).Kept → x.Printable)
    (hself : ∀ y n, t = .field y n → y.isInteger = false)
    (hchildren : ∀ y ∈ t.children, (Node.expression y).Kept) : t.Printable := by
  have hnodes : ∀ xs : List Expression, xs = t.children →
      ∀ n ∈ xs.map Node.expression, n.Kept := by
    rintro _ rfl n hn
    obtain ⟨y, hy, rfl⟩ := List.mem_map.mp hn
    exact hchildren y hy
  unfold Expression.target? at ht
  split at ht
  · cases ht
    exact hx (Node.kept_iff.mpr ⟨⟨nofun, trivial⟩, hnodes _ rfl⟩)
  · cases ht
    exact hx (Node.kept_iff.mpr ⟨⟨nofun, trivial⟩, hnodes _ rfl⟩)
  · cases ht
    exact hx (Node.kept_iff.mpr ⟨⟨nofun, hself _ _ rfl⟩, hnodes _ rfl⟩)
  · exact nomatch ht

/-- A statement that assigns has the target and the value in it. -/
theorem Target.printable_of_statement {x value : Expression} {t : Target} {s : Statement}
    (ht : x.target? = some t) (hkept : (Node.statement s).Kept)
    (hchildren : s.children = (t.children ++ [value]).map .expression)
    (hself : ∀ y n, t = .field y n → y.isInteger = false)
    (hx : (Node.expression x).Kept → x.Printable)
    (hvalue : (Node.expression value).Kept → value.Printable) : t.Printable ∧ value.Printable := by
  have hparts : ∀ y ∈ t.children ++ [value], (Node.expression y).Kept := fun y hy =>
    hkept.child (by rw [Node.children, hchildren]; exact List.mem_map_of_mem hy)
  rw [List.forall_mem_append, List.forall_mem_singleton] at hparts
  exact ⟨Target.printable ht hx hself hparts.1, hvalue hparts.2⟩

/-- What is derived from kinds that can occur is printable. -/
theorem Derives.printable {f : Form} {ks : List Kind} {t : f.Tree} (h : Derives f ks t)
    (hks : ∀ k ∈ ks, k.Occurs) : f.Printable t := by
  induction h with
  | integer l => exact fun _ => hks _ (.head _)
  | float v =>
    intro hkept
    obtain ⟨m, rfl⟩ := hks _ (.head _)
    exact printableFloat_of_ne hkept.survives
  | @strings ss _ =>
    intro hkept
    simp only [List.mem_map, forall_exists_index, and_imp, forall_apply_eq_imp_iff₂] at hks
    exact (quotable_join hks).of_not_mem hkept.survives
  | name n => exact fun _ => hks _ (.head _)
  | boolean => exact fun _ => trivial
  | noneLiteral => exact fun _ => trivial
  | emptyTuple => exact fun _ => trivial
  | parentheses _ ih => exact ih fun k hk => hks k (by simp [Bracket.around, hk])
  | list _ ih =>
    intro hkept
    exact ih (fun k hk => hks k (by simp [Bracket.around, hk]))
      fun x hx => hkept.child (List.mem_map_of_mem hx)
  | set _ hne ih =>
    intro hkept
    exact ⟨hne, ih (fun k hk => hks k (by simp [Bracket.around, hk]))
      fun x hx => hkept.child (List.mem_map_of_mem hx)⟩
  | dict _ ih =>
    intro hkept
    refine ih (fun k hk => hks k (by simp [Bracket.around, hk])) ?_
    rintro ⟨x, y⟩ he
    have hentry : ∀ z ∈ [x, y], (Node.expression z).Kept := fun z hz =>
      hkept.child (List.mem_map_of_mem (List.mem_flatMap_of_mem he hz))
    exact ⟨hentry x (.head _), hentry y (.tail _ (.head _))⟩
  | call _ _ ih ih' =>
    intro hkept
    exact ⟨ih (fun k hk => hks k (by simp [hk])) (hkept.child (.head _)),
      ih' (fun k hk => hks k (by simp [Bracket.around, hk]))
        fun x hx => hkept.child (.tail _ (List.mem_map_of_mem hx))⟩
  | item _ _ ih ih' =>
    intro hkept
    exact ⟨ih (fun k hk => hks k (by simp [hk])) (hkept.child (.head _)),
      ih' (fun k hk => hks k (by simp [Bracket.around, hk])) (hkept.child (.tail _ (.head _)))⟩
  | field n _ ih =>
    intro hkept
    exact ⟨ih (fun k hk => hks k (by simp [hk])) (hkept.child (.head _)), hkept.survives,
      hks (.identifier n) (by simp)⟩
  | power _ _ ih ih' | product _ _ _ ih ih' | sum _ _ _ ih ih' | and _ _ ih ih'
  | or _ _ ih ih' =>
    intro hkept
    exact ⟨ih (fun k hk => hks k (by simp [hk])) (hkept.child (.head _)),
      ih' (fun k hk => hks k (by simp [hk])) (hkept.child (.tail _ (.head _)))⟩
  | minus _ ih | plus _ ih | not _ ih =>
    intro hkept
    exact ih (fun k hk => hks k (.tail _ hk)) (hkept.child (.head _))
  | comparison _ _ hne ih ih' =>
    intro hkept
    exact ⟨ih (fun k hk => hks k (by simp [hk])) (hkept.child (.head _)), hne,
      ih' (fun k hk => hks k (by simp [hk])) fun e he =>
        hkept.child (.tail _ (List.mem_map_of_mem (List.mem_map_of_mem he)))⟩
  | tuple _ _ ih ih' =>
    intro hkept
    exact ⟨ih (fun k hk => hks k (by simp [hk])) (hkept.child (.head _)),
      ih' (fun k hk => hks k (by simp [hk]))
        fun x hx => hkept.child (.tail _ (List.mem_map_of_mem hx))⟩
  | looser _ _ ih => exact ih hks
  | noItems => exact fun _ => trivial
  | oneItem _ ih => exact fun hkept => ⟨ih hks (hkept _ (.head _)), trivial⟩
  | moreItems _ _ ih ih' =>
    intro hkept
    exact ⟨ih (fun k hk => hks k (by simp [hk])) (hkept _ (.head _)),
      ih' (fun k hk => hks k (by simp [hk])) fun x hx => hkept x (.tail _ hx)⟩
  | noEntries => exact fun _ => trivial
  | oneEntry _ _ ih ih' =>
    intro hkept
    obtain ⟨hx, hy⟩ := hkept _ (.head _)
    exact ⟨ih (fun k hk => hks k (by simp [hk])) hx, ih' (fun k hk => hks k (by simp [hk])) hy,
      trivial⟩
  | moreEntries _ _ _ ih ih' ih'' =>
    intro hkept
    obtain ⟨hx, hy⟩ := hkept _ (.head _)
    exact ⟨ih (fun k hk => hks k (by simp [hk])) hx, ih' (fun k hk => hks k (by simp [hk])) hy,
      ih'' (fun k hk => hks k (by simp [hk])) fun e he => hkept e (.tail _ he)⟩
  | noneCompared => exact fun _ => trivial
  | moreCompared _ _ _ ih ih' =>
    intro hkept
    exact ⟨ih (fun k hk => hks k (by simp [hk])) (hkept _ (.head _)),
      ih' (fun k hk => hks k (by simp [hk])) fun e he => hkept e (.tail _ he)⟩
  | pass => exact fun _ => trivial
  | breakLoop => exact fun _ => trivial
  | continueLoop => exact fun _ => trivial
  | noResult => exact fun _ => trivial
  | result _ ih =>
    exact fun hkept => ih (fun k hk => hks k (.tail _ hk)) (hkept.child (.head _))
  | value _ ih => exact fun hkept => ih hks (hkept.child (.head _))
  | assign _ ht _ ih ih' =>
    intro hkept
    refine Target.printable_of_statement ht hkept rfl ?_ (ih fun k hk => hks k (by simp [hk]))
      (ih' fun k hk => hks k (by simp [hk]))
    rintro y n rfl
    exact hkept.survives
  | update _ _ ht _ ih ih' =>
    intro hkept
    refine Target.printable_of_statement ht hkept rfl ?_ (ih fun k hk => hks k (by simp [hk]))
      (ih' fun k hk => hks k (by simp [hk]))
    rintro y n rfl
    exact hkept.survives
  | lastSimple _ ih | lastWithSemicolon _ ih =>
    exact fun hkept => ⟨ih (fun k hk => hks k (by simp [hk])) (hkept _ (.head _)), trivial⟩
  | moreSimple _ _ ih ih' =>
    intro hkept
    exact ⟨ih (fun k hk => hks k (by simp [hk])) (hkept _ (.head _)),
      ih' (fun k hk => hks k (by simp [hk])) fun s hs => hkept s (.tail _ hs)⟩
  | lineSuite _ ih => exact ih hks
  | blockSuite _ ih => exact ih fun k hk => hks k (by simp [hk])
  | noParameters => exact List.forall_mem_nil _
  | oneParameter n => exact List.forall_mem_singleton.mpr (hks _ (.head _))
  | moreParameters n _ ih =>
    exact List.forall_mem_cons.mpr ⟨hks _ (.head _), ih fun k hk => hks k (by simp [hk])⟩
  | function n _ _ ih ih' =>
    intro hkept
    have hs := hkept _ (.head _)
    exact ⟨⟨hks (.identifier n) (by simp), ih fun k hk => hks k (by simp [Bracket.around, hk]),
      hs.body rfl, ih' (fun k hk => hks k (by simp [hk]))
        fun s hb => hs.child (List.mem_map_of_mem hb)⟩, trivial⟩
  | branch _ ih =>
    exact fun hkept => ⟨ih (fun k hk => hks k (.tail _ hk)) (hkept _ (.head _)), trivial⟩
  | whileLoop _ _ ih ih' =>
    intro hkept
    have hs := hkept _ (.head _)
    exact ⟨⟨ih (fun k hk => hks k (by simp [hk])) (hs.child (.head _)), hs.body rfl,
      ih' (fun k hk => hks k (by simp [hk]))
        fun s hb => hs.child (.tail _ (List.mem_map_of_mem hb))⟩, trivial⟩
  | forLoop n _ _ ih ih' =>
    intro hkept
    have hs := hkept _ (.head _)
    exact ⟨⟨hks (.identifier n) (by simp), ih (fun k hk => hks k (by simp [hk])) (hs.child (.head _)),
      hs.body rfl, ih' (fun k hk => hks k (by simp [hk]))
        fun s hb => hs.child (.tail _ (List.mem_map_of_mem hb))⟩, trivial⟩
  | lineStatement _ ih => exact ih hks
  | plainBranch _ _ ih ih' =>
    intro hkept
    exact ⟨ih (fun k hk => hks k (by simp [hk])) (hkept.child (.head _)), hkept.body rfl,
      ih' (fun k hk => hks k (by simp [hk])) fun s hb =>
        hkept.child (.tail _ (List.mem_map_of_mem (List.mem_append_left _ hb))), trivial⟩
  | chain _ _ _ ih ih' ih'' =>
    intro hkept
    refine ⟨ih (fun k hk => hks k (by simp [hk])) (hkept.child (.head _)), hkept.body rfl,
      ih' (fun k hk => hks k (by simp [hk])) fun s hb =>
        hkept.child (.tail _ (List.mem_map_of_mem (List.mem_append_left _ hb))),
      ih'' (fun k hk => hks k (by simp [hk])) ?_, trivial⟩
    exact hkept.child (.tail _ (List.mem_map_of_mem (List.mem_append_right _ (.head _))))
  | choice _ _ _ ih ih' ih'' =>
    intro hkept
    refine ⟨ih (fun k hk => hks k (by simp [hk])) (hkept.child (.head _)), hkept.body rfl,
      ih' (fun k hk => hks k (by simp [hk])) fun s hb =>
        hkept.child (.tail _ (List.mem_map_of_mem (List.mem_append_left _ hb))),
      ih'' (fun k hk => hks k (by simp [hk])) fun s hb => ?_⟩
    exact hkept.child (.tail _ (List.mem_map_of_mem (List.mem_append_right _ hb)))
  | noStatements => exact fun _ => trivial
  | emptyLine _ ih => exact ih fun k hk => hks k (.tail _ hk)
  | moreStatements _ _ ih ih' =>
    intro hkept
    rw [List.forall_mem_append] at hkept
    exact Statement.allPrintable_append (ih (fun k hk => hks k (by simp [hk])) hkept.1)
      (ih' (fun k hk => hks k (by simp [hk])) hkept.2)
  | program _ ih =>
    intro hkept
    exact ⟨hkept.body rfl, ih (fun k hk => hks k (by simp [hk]))
      fun s hs => hkept.child (List.mem_map_of_mem hs)⟩

/-! ### What is printed is read -/

theorem Module.exists_tokens {source : String} {m : Module} (h : ofText source = .ok m) :
    ∃ ts, tokens source = .ok ts ∧ ofTokens ts = .ok m := by
  unfold ofText at h
  split at h
  · exact ⟨_, ‹_›, h⟩
  · exact nomatch h

theorem Module.printable_of_ofText {source : String} {m : Module} (h : ofText source = .ok m)
    (hkept : (Node.module m).Kept) : m.Printable := by
  obtain ⟨ts, hts, hm⟩ := exists_tokens h
  obtain ⟨rest, hblock, -⟩ := block_of_ofTokens hm
  obtain ⟨ks, hs, hd⟩ := derives_of_block ts hblock
  have hoccurs : ∀ k ∈ ts.map Token.kind, k.Occurs := by
    intro k hk
    obtain ⟨t, ht, rfl⟩ := List.mem_map.mp hk
    exact occurs_of_tokens hts t ht
  have hks : ∀ k ∈ ks ++ [Kind.endOfFile], k.Occurs := by
    rw [hs, List.forall_mem_append] at hoccurs
    exact List.forall_mem_append.mpr ⟨hoccurs.1, List.forall_mem_singleton.mpr trivial⟩
  exact (Derives.program hd).printable hks hkept

/-- A program that was read from a text, whose bodies have statements and whose nodes survive being
printed, is printed as a text that is read as it. -/
theorem Module.ofText_text_of_ofText {source : String} {m : Module} (h : ofText source = .ok m)
    (hbody : ∀ n ∈ m.walk, n.body? ≠ some []) (hsurvives : ∀ n ∈ m.walk, n.Survives) :
    ofText m.text = .ok m := by
  have hprintable := printable_of_ofText h fun n hn => ⟨hbody n hn, hsurvives n hn⟩
  have hread := Statement.denotes_bodyText hprintable.nonempty
    fun s hs => Statement.allReadBack m.body hprintable.body s hs 0
  exact hread.ofText indents_fourSpaces (Statement.bodyText_ne_nil 0 m.body) (.inl rfl)

namespace Module

/-- The program that is an expression. -/
def alone (x : Expression) : Module :=
  ⟨[.expression x]⟩

/-- A program that is an expression has one body, with the expression in it. -/
theorem alone_body (x : Expression) : ∀ n ∈ (alone x).walk, n.body? ≠ some [] := by
  rw [walk_eq, alone, nodesIn_cons, Node.walk_eq, Node.children, Statement.children,
    List.flatMap_singleton]
  have hnone : none ≠ some ([] : List Statement) := (Option.some_ne_none _).symm
  refine List.forall_mem_cons.mpr ⟨?_, List.forall_mem_append.mpr
    ⟨List.forall_mem_cons.mpr ⟨hnone, fun n hn => ?_⟩, List.forall_mem_nil _⟩⟩
  · exact mt Option.some.inj (List.cons_ne_nil _ _)
  · obtain ⟨y, rfl⟩ := Node.expression_of_mem_walk x n hn
    exact hnone

set_option maxRecDepth 4000 in
/-- A field of a string that is put together from two. -/
theorem ofText_text_of_ofText_joined :
    ofText "('a' \"b'\").y\n" = .ok (alone (.field (.string "ab'") "y")) ∧
      ofText (alone (.field (.string "ab'") "y")).text =
        .ok (alone (.field (.string "ab'") "y")) := by
  have hread : ofText "('a' \"b'\").y\n" = .ok (alone (.field (.string "ab'") "y")) := by cbv
  have hquote : chosenQuote "ab'" ∉ unescaped "ab'".toList := by
    simp [chosenQuote, unescaped]
  refine ⟨hread, ofText_text_of_ofText hread (alone_body _) ?_⟩
  simpa [alone, walk, Node.walk_eq, Node.children, Statement.children, Expression.children,
    Node.Survives, Expression.isInteger] using hquote

/-- The program was read from the text and its bodies have statements, but what is printed of it is
not read as it. -/
def Misprinted (source : String) (m : Module) : Prop :=
  ofText source = .ok m ∧ (∀ n ∈ m.walk, n.body? ≠ some []) ∧ ofText m.text ≠ .ok m

/-- An expression is misprinted if no program is read from what is printed of it. -/
theorem Misprinted.of_refused {source printed : String} {x : Expression}
    (h : ofText source = .ok (alone x)) (htext : (alone x).text = printed)
    (hrefused : (ofText printed).isOk = false) : Misprinted source (alone x) := by
  refine ⟨h, alone_body x, fun hread => ?_⟩
  rw [htext] at hread
  rw [hread] at hrefused
  cases hrefused

set_option maxRecDepth 4000 in
/-- A field of a whole number, an infinite number and a string with both quotes in it. -/
theorem ofText_text_misprinted :
    Misprinted "(0).y\n" (alone (.field (.integer "0") "y")) ∧
      Misprinted "1e999\n"
        (alone (.float (.number false (Binary64.magnitude Binary64.infinite)))) ∧
      Misprinted "\"a'\" 'b\"'\n" (alone (.string "a'b\"")) := by
  have hfield : (alone (.field (.integer "0") "y")).text = "0.y\n" := by cbv
  have hinfinite : (alone (.float (.number false
      (Binary64.magnitude Binary64.infinite)))).text = "inf\n" := by decide +kernel
  have hstring : (alone (.string "a'b\"")).text = "'a'b\"'\n" := by cbv
  refine ⟨.of_refused (by cbv) hfield (by cbv), ⟨by cbv, alone_body _, ?_⟩,
    .of_refused (by cbv) hstring (by cbv)⟩
  -- The text of an infinite number is read as a name.
  have hread : ofText "inf\n" = .ok (alone (.name "inf")) := by cbv
  rw [hinfinite, hread]
  rintro ⟨⟩

end Module

end Growth.Code
