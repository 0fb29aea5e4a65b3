import Growth.Proofs.Rendition.Lines
import Growth.Proofs.Rendition.Skeleton

/-! What stands in the lines of statements besides calculations and conditions: targets, what
counters range over, and parameters. A keyword of target code among their names is met where it
stands. -/

namespace Growth.Pseudo

open Code (Expression Denotes DenotesItems DenotesTarget DenotesParameters DenotesLines
  IndexKinds Opens Precedence indentation)

/-! ### What is read for words -/

/-- What is read for the words `ws`: something where none of them is a keyword of target code,
nothing where one is a keyword and no value. It has the property `P`. -/
structure Meets {α : Type} (ws : List Word) (P : α → Prop) (o : Option α) : Prop where
  accepted : (∀ w ∈ ws, ¬IsBorrowed w) → o ≠ none
  rejected : (∃ w ∈ ws, IsReserved w) → o = none
  holds : ∀ x ∈ o, P x

namespace Meets

variable {α β : Type} {ws ws' : List Word} {P : α → Prop} {Q : β → Prop} {o : Option α}

theorem of_fails (h : o = none ↔ ∃ w ∈ ws, IsReserved w) : Meets ws (o = Option.some ·) o := by
  refine ⟨fun hws hnone => ?_, h.mpr, fun _ => id⟩
  obtain ⟨w, hw, hreserved⟩ := h.mp hnone
  exact hws w hw hreserved.isBorrowed

theorem some {x : α} (h : P x) : Meets [] P (some x) := by
  refine ⟨fun _ => nofun, by simp, ?_⟩
  rintro _ ⟨⟩
  exact h

theorem bind (h : Meets ws P o) {f : α → Option β} (hf : ∀ x, P x → Meets ws' Q (f x)) :
    Meets (ws ++ ws') Q (o.bind f) := by
  refine ⟨fun hws => ?_, fun ⟨w, hw, hreserved⟩ => ?_, fun y hy => ?_⟩
  · obtain ⟨hl, hr⟩ := List.forall_mem_append.mp hws
    cases ho : o with
    | none => exact absurd ho (h.accepted hl)
    | some x => exact (hf x (h.holds x ho)).accepted hr
  · cases ho : o with
    | none => rfl
    | some x =>
      rcases List.mem_append.mp hw with hw | hw
      · exact nomatch (h.rejected ⟨w, hw, hreserved⟩).symm.trans ho
      · exact (hf x (h.holds x ho)).rejected ⟨w, hw, hreserved⟩
  · obtain ⟨x, hx, hmore⟩ := Option.bind_eq_some_iff.mp hy
    exact (hf x (h.holds x hx)).holds y hmore

theorem map (h : Meets ws P o) {f : α → β} (hf : ∀ x, P x → Q (f x)) : Meets ws Q (o.map f) := by
  refine ⟨fun hws => ?_, fun hws => ?_, fun z hz => ?_⟩
  · rw [Ne, Option.map_eq_none_iff]
    exact h.accepted hws
  · rw [h.rejected hws]
    rfl
  · obtain ⟨x, hx, rfl⟩ := Option.map_eq_some_iff.mp hz
    exact hf x (h.holds x hx)

/-- Words of pseudocode itself do not count. -/
theorem of_words (h : Meets ws P o) (hws : ∀ p : Word → Prop, (∀ k : Kind, ¬p k.word) →
    ((∃ w ∈ ws', p w) ↔ ∃ w ∈ ws, p w)) : Meets ws' P o := by
  refine ⟨fun hfree => h.accepted ?_, fun hreserved => h.rejected ?_, h.holds⟩
  · by_contra hborrowed
    push Not at hborrowed
    obtain ⟨w, hw, hbad⟩ := (hws IsBorrowed isBorrowed_word).mpr hborrowed
    exact hfree w hw hbad
  · exact (hws IsReserved isReserved_word).mp hreserved

end Meets

theorem DenotesWords.meets {level : Precedence} {cs : List Char} {ws : List Word}
    {o : Option Expression} (h : DenotesWords level cs ws o) : Meets ws (o = some ·) o :=
  .of_fails h.fails

theorem IsName.meets {n : String} (h : IsName n) :
    Meets [(.name, n)] (· = n) (Code.nameKind n).name? := by
  refine ⟨fun hws => ?_, fun hws => ?_, fun _ hn => h.eq_of_name? hn⟩
  · rw [Ne, h.name?_eq_none_iff]
    simpa using hws
  · rw [h.name?_eq_none_iff]
    exact .inl (by simpa using hws)

/-! ### Targets -/

/-- The words of a target are names and numbers that are spelled as such. -/
def Target.IsSpelled (t : Target) : Prop := ∀ w ∈ t.words, Spelled w

/-- An index is a calculation. -/
def Index.calc : Index → Calc
  | number lexeme => .number lexeme
  | name n => .name n

/-- What is assigned to in target code, if it can be assigned to. -/
def Target.code? : Target → Option Code.Target
  | name n => (Expression.ofName? n).bind Expression.target?
  | item n index => (Expression.ofName? n).bind fun x => index.calc.code?.map (.item x)

namespace Target

variable {n : String} {index : Index} {t : Target}

theorem IsSpelled.name (h : (Target.name n).IsSpelled) : IsName n :=
  h _ (.head _)

theorem IsSpelled.item (h : (Target.item n index).IsSpelled) :
    IsName n ∧ index.calc.IsSpelled := by
  simp only [Target.IsSpelled, Target.words, List.forall_mem_cons] at h
  refine ⟨h.1, ?_⟩
  cases index <;> exact List.forall_mem_singleton.mpr h.2.2.1

theorem eq_code {t' : Code.Target} (h : t.code? = some t') : t' = t.code := by
  cases t with
  | name n =>
    obtain ⟨x, hx, ht⟩ := Option.bind_eq_some_iff.mp h
    rw [Expression.eq_ofName hx, Expression.ofName] at ht
    split at ht
    · exact nomatch ht
    · exact nomatch ht
    · exact nomatch ht
    · exact (Option.some.inj ht).symm
  | item n index =>
    obtain ⟨x, hx, hindex⟩ := Option.bind_eq_some_iff.mp h
    obtain ⟨i, hi, rfl⟩ := Option.map_eq_some_iff.mp hindex
    have hcode : i = index.code := by
      cases index with
      | number lexeme => exact (Option.some.inj hi).symm
      | name n => exact Expression.eq_ofName hi
    rw [Target.code, hcode, Expression.eq_ofName hx]

theorem toList_text_item (n : String) (index : Index) :
    (Target.item n index).text.toList = n.toList ++ '[' :: (index.calc.text.toList ++ [']']) := by
  have htext : (Target.item n index).text = (Calc.item n index.calc).text := by
    cases index <;> rfl
  rw [htext, Calc.toList_text_item]

theorem tidy (h : t.IsSpelled) : Tidy t.text.toList := by
  cases t with
  | name n => exact h.name.tidy
  | item n index =>
    rw [toList_text_item]
    have hindex := (Calc.tidy index.calc h.item.2).append
      (.single (c := ']') (by decide) (by decide))
    exact h.item.1.tidy.append (hindex.cons (by decide) (by decide))

/-- Nothing is assigned to a keyword. -/
theorem meets (h : t.IsSpelled) : Meets t.words (· = t.code) t.code? := by
  cases t with
  | name n =>
    refine ⟨fun hws => ?_, fun hws => ?_, fun _ => eq_code⟩
    · have hn : ¬(n ∈ reserved ∨ n ∈ constants) := by simpa [Target.words] using hws
      rw [not_or] at hn
      rw [Target.code?, h.name.ofName?_eq hn.1 hn.2]
      rintro ⟨⟩
    · have hn : n ∈ reserved := by simpa [Target.words] using hws
      rw [Target.code?, h.name.ofName?_eq_none_iff.mpr hn]
      rfl
  | item n index =>
    have hfails : (Target.item n index).code? = none ↔
        ∃ w ∈ (Target.item n index).words, IsReserved w := by
      rw [Target.code?, bind_map_eq_none_iff, h.item.1.ofName?_eq_none_iff,
        Calc.code?_eq_none_iff _ h.item.2]
      cases index <;> simp [Target.words, Index.calc, Calc.words, Index.word]
    have hmeets := Meets.of_fails hfails
    exact ⟨hmeets.accepted, hmeets.rejected, fun _ => eq_code⟩

end Target

/-! ### Assignments -/

section Assignments

variable {depth : Nat} {n : String} {index cs : List Char} {o o' : Option Expression}

/-- An index behind what is assigned to. -/
structure DenotesIndex (cs : List Char) (o : Option Expression) : Prop where
  scans : ∃ ks, (∀ bs, Code.Scans (Code.Follows false) bs cs ks bs) ∧ IndexKinds ks ∧
    ∀ {k x}, Code.Reads .primary [k] x →
      Code.Reads .primary (k :: ks) (x.bind fun x => o.map fun i => .item x i)

theorem denotesIndex {level : Precedence} (h : Denotes level false cs o)
    (hlevel : Precedence.or.rank ≤ level.rank) : DenotesIndex ('[' :: (cs ++ [']'])) o := by
  obtain ⟨ks, hs, hr⟩ := h.loosen hlevel
  refine ⟨.mark (.opening .square) :: (ks ++ [Code.Kind.mark (.closing .square)]),
    fun bs => ?_, ?_, ?_⟩
  · exact .consSign (.opening .square)
      (.append (hs _) (.closing .square) fun _ _ => .cons (by decide) _ _)
  · exact .inr ⟨_, _, rfl, .one hr⟩
  · exact fun hk => hk.item (hr.loosen (by decide))

/-- What does not begin a statement of its own can be assigned to, or is no target. -/
theorem denotesTarget {k : Code.Kind} (hs : Code.Spells n.toList k) (hdot : k.takesDot = true)
    (hplain : k.isPlain = true) (hown : ∀ w : Code.Keyword, w.isOwn = true → k ≠ .keyword w)
    {ks : List Code.Kind} (hscans : ∀ bs, Code.Scans (Code.Follows false) bs index ks bs)
    (hfollows : ∀ rest, Code.Follows false rest → Code.Follows true (index ++ rest))
    (hr : Code.Reads .primary (k :: ks) o) :
    DenotesTarget (n.toList ++ index) (o.bind Expression.target?) := by
  refine ⟨hs.opens.append _, k, ks, o, fun bs => ?_, hr.loosen (by decide), hplain, hown, rfl⟩
  have hname : Code.Scans (Code.Follows k.takesDot) bs n.toList [k] bs := hs.scans
  exact .append hname (hscans bs) fun rest hrest => hdot ▸ hfollows rest hrest

/-- An assignment to a name, with an index or without. -/
theorem IsName.denotes_assign (h : IsName n) {ks : List Code.Kind} {t : Option Code.Target}
    (hscans : ∀ bs, Code.Scans (Code.Follows false) bs index ks bs) (hkinds : IndexKinds ks)
    (hfollows : ∀ rest, Code.Follows false rest → Code.Follows true (index ++ rest))
    (hspoiled : n ∈ reserved → t = none)
    (ht : ∃ o, Code.Reads .primary (Code.nameKind n :: ks) o ∧ o.bind Expression.target? = t)
    (hv : Denotes .tuple false cs o) :
    DenotesLines ['\t'] depth
      (indentation ['\t'] depth ++ (n.toList ++ index ++ ' ' :: '=' :: ' ' :: cs) ++ ['\n'])
      (t.bind fun t => o.map fun x => [.assign t x]) := by
  obtain ⟨o', hreads, rfl⟩ := ht
  have hassign : (Code.nameKind n).isPlain = true →
      (∀ w : Code.Keyword, w.isOwn = true → Code.nameKind n ≠ .keyword w) →
      DenotesLines ['\t'] depth
        (indentation ['\t'] depth ++ (n.toList ++ index ++ ' ' :: '=' :: ' ' :: cs) ++ ['\n'])
        ((o'.bind Expression.target?).bind fun t => o.map fun x => [.assign t x]) :=
    fun hplain hown =>
      .assign (denotesTarget h.spells h.takesDot hplain hown hscans hfollows hreads) hv
  by_cases hr : n ∈ reserved
  · obtain ⟨k, hk, hmem, hspoils | rfl⟩ := nameKind_of_reserved hr
    · -- the keyword begins another statement, which no index and no sign can follow
      rw [hspoiled hr]
      have hword : (n, k) ∈ Code.Keyword.table := by
        have hall : ∀ entry ∈ borrowed, entry ∈ Code.Keyword.table := by decide
        exact hall _ hmem
      exact .spoiled hspoils hword hkinds (hscans []) (fun rest => hfollows _ (.cons (by decide) _ _))
        hv
    · exact hassign (by rw [hk]; rfl) (by rw [hk]; rintro _ hw ⟨⟩; exact nomatch hw)
  · rcases h.nameKind_cases with hk | ⟨k, hk, hmem⟩
    · exact hassign (by rw [hk]; rfl) (by rw [hk]; exact nofun)
    · have hconstant : k = .trueKw ∨ k = .falseKw ∨ k = .noneKw := by
        have hall : ∀ entry ∈ borrowed, entry.1 ∉ reserved →
            entry.2 = .trueKw ∨ entry.2 = .falseKw ∨ entry.2 = .noneKw := by decide
        exact hall _ hmem hr
      rcases hconstant with rfl | rfl | rfl
      all_goals exact hassign (by rw [hk]; rfl) (by rw [hk]; rintro _ hw ⟨⟩; exact nomatch hw)

theorem Target.denotes_assign {t : Target} (h : t.IsSpelled) (hv : Denotes .tuple false cs o) :
    DenotesLines ['\t'] depth
      (indentation ['\t'] depth ++ (t.text.toList ++ ' ' :: '=' :: ' ' :: cs) ++ ['\n'])
      (t.code?.bind fun t => o.map fun x => [.assign t x]) := by
  cases t with
  | name n =>
    have hassign : DenotesLines ['\t'] depth _ _ := h.name.denotes_assign (fun _ => .nil) (.inl rfl)
      (fun _ hrest => hrest.mono true)
      (fun hr => (Target.meets h).rejected (by simpa [Target.words] using hr))
      ⟨_, h.name.reads, rfl⟩ hv
    simpa [Target.text] using hassign
  | item n index =>
    have hgrouped : index.calc.Grouped := by cases index <;> trivial
    obtain ⟨ks, hscans, hkinds, hreads⟩ :=
      (denotesIndex (index.calc.denotes hgrouped h.item.2) Calc.or_le_precedence).scans
    have hassign : DenotesLines ['\t'] depth _ _ := h.item.1.denotes_assign hscans hkinds
      (fun _ _ => .cons (by decide) _ _)
      (fun hr => (Target.meets h).rejected ⟨_, .head _, (isReserved_name n).mpr hr⟩)
      ⟨_, hreads h.item.1.reads, by
        rw [Target.code?]
        cases Expression.ofName? n <;> cases index.calc.code? <;> rfl⟩ hv
    rw [toList_text_item]
    exact hassign

end Assignments

/-! ### Sources and parameters -/

/-- The words of a source are names and numbers that are spelled as such. -/
def Source.IsSpelled (s : Source) : Prop := ∀ w ∈ s.words, Spelled w

/-- Calculations between the parentheses of a call. -/
def Source.calcs : Source → List Calc
  | values c => [c]
  | interval first last => [first, last]
  | steps first last step => [first, last, step]

theorem Source.allSpelled {s : Source} (h : s.IsSpelled) : Calc.AllSpelled s.calcs := by
  cases s <;> simp_all [Calc.AllSpelled, Source.calcs, Source.IsSpelled, Calc.IsSpelled, Source.words]

theorem Source.allGrouped {s : Source} (h : s.Grouped) : Calc.AllGrouped s.calcs := by
  cases s <;> simp_all [Calc.AllGrouped, Source.calcs, Source.Grouped]

theorem Source.exists_reserved (s : Source) :
    (∃ w ∈ s.words, IsReserved w) ↔ ∃ w ∈ Calc.listed s.calcs, IsReserved w := by
  cases s <;> simp [Source.words, Source.calcs, Calc.listed, or_and_right, exists_or]

theorem isName_range : IsName "range" :=
  ⟨⟨'r', "ange".toList, rfl, by decide, List.all_eq_true.mp (by decide)⟩, by decide⟩

/-- A source is a calculation, or a call with one. -/
theorem Source.toList_text_of_call {s : Source} (h : ∀ c, s ≠ .values c) : s.text.toList =
    "range".toList ++ '(' :: ((",".intercalate (Calc.texts s.calcs)).toList ++ [')']) := by
  cases s with
  | values c => exact absurd rfl (h c)
  | _ => simp [Source.text, Source.calcs, Calc.texts, toString, String.intercalate_cons_cons]

theorem Source.tidy {s : Source} (h : s.IsSpelled) : Tidy s.text.toList := by
  by_cases hs : ∃ c, s = .values c
  · obtain ⟨c, rfl⟩ := hs
    exact Calc.tidy c (Source.allSpelled h c (.head _))
  · rw [Source.toList_text_of_call (not_exists.mp hs)]
    exact isName_range.tidy.append
      (tidy_bracketed (.inl rfl) (Calc.allTidy _ (Source.allSpelled h)) (by decide) (by decide))

theorem Source.denotes {s : Source} (hg : s.Grouped) (h : s.IsSpelled) :
    ∃ o, DenotesWords .or s.text.toList s.words o := by
  by_cases hs : ∃ c, s = .values c
  · obtain ⟨c, rfl⟩ := hs
    exact ⟨_, (DenotesWords.of_calc hg h).loosen Calc.or_le_precedence⟩
  · have hcalcs := Calc.denotesItems .round (.inl rfl) s.calcs (allGrouped hg)
      (allSpelled h)
    have hname : Expression.ofName? "range" = some (.name "range") :=
      isName_range.ofName?_eq (by decide) (by decide)
    have hcall : Denotes .or false _ _ :=
      (isName_range.denotes.call hcalcs).withoutDot.loosen (by decide)
    have hclose : Code.Bracket.round.closing = ')' := rfl
    rw [hname, hclose, ← Source.toList_text_of_call (not_exists.mp hs)] at hcall
    refine ⟨_, hcall, ?_⟩
    rw [bind_map_eq_none_iff, Calc.codes?_eq_none_iff _ (allSpelled h), s.exists_reserved]
    simp

theorem Source.opens {s : Source} (h : s.IsSpelled) : Opens s.text.toList := by
  by_cases hs : ∃ c, s = .values c
  · obtain ⟨c, rfl⟩ := hs
    exact Calc.opens c (Source.allSpelled h c (.head _))
  · rw [Source.toList_text_of_call (not_exists.mp hs)]
    exact isName_range.opens.append _

theorem Source.expression?_text {s : Source} (h : s.IsSpelled) {x : Expression}
    (hx : Denotes .or false s.text.toList (some x)) : expression? s.text = some x :=
  expression?_of_denotes (Source.tidy h).squeezed (.head _) (Source.tidy h) (Source.opens h)
    (hx.loosen (by decide))

theorem exists_mem_parameterWords {ps : List String} {p : Word → Prop} (hp : ¬p Kind.comma.word) :
    (∃ w ∈ parameterWords ps, p w) ↔ ∃ n ∈ ps, p (.name, n) := by
  induction ps with
  | nil => simp [parameterWords]
  | cons n ps ih =>
    by_cases hne : ps = []
    · simp [parameterWords, hne]
    · rw [parameterWords, if_neg (by simpa using hne)]
      simp [hp, ih]

theorem isName_of_parameters {ps : List String} (h : ∀ w ∈ parameterWords ps, Spelled w) :
    ∀ n ∈ ps, IsName n := by
  intro n hn
  by_contra hnot
  have hcomma : ¬¬Spelled Kind.comma.word := fun hcomma => hcomma trivial
  obtain ⟨w, hw, hspelled⟩ := (exists_mem_parameterWords (p := fun w => ¬Spelled w) hcomma).mpr
    ⟨n, hn, hnot⟩
  exact hspelled (h w hw)

/-- Names of parameters with commas between them. -/
theorem denotesParameters {ps : List String} (h : ∀ n ∈ ps, IsName n) :
    ∃ o, DenotesParameters ((",".intercalate ps).toList ++ [')']) o ∧
      Meets (parameterWords ps) (· = ps) o := by
  induction ps with
  | nil => exact ⟨some [], .nil, .some rfl⟩
  | cons n ps ih =>
    obtain ⟨hn, hps⟩ := List.forall_mem_cons.mp h
    obtain ⟨o, hread, hmeets⟩ := ih hps
    by_cases hne : ps = []
    · subst hne
      refine ⟨_, by simpa using DenotesParameters.one hn.denotesName, ?_⟩
      exact hn.meets.map fun m hm => by rw [hm]
    · refine ⟨_, ?_, (hn.meets.bind fun m hm => hmeets.map (f := fun ns => m :: ns) ?_).of_words ?_⟩
      · obtain ⟨n', ps', rfl⟩ := List.exists_cons_of_ne_nil hne
        simpa [String.intercalate_cons_cons] using DenotesParameters.cons hn.denotesName hread
      · rintro _ rfl
        rw [hm]
      · intro p hp
        rw [parameterWords, if_neg (by simpa using hne)]
        simp [hp]

end Growth.Pseudo
