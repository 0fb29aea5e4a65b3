import Growth.Proofs.Rendition.Calculation

/-! Conditions in target code. Their text may begin with a blank, which is squeezed where another
stands before it. Joined conditions group otherwise in target code, where `and` holds tighter than
`or`, but they are read all the same. -/

namespace Growth.Pseudo

open Code (Expression Denotes DenotesCompared Opens Precedence Comparison)

/-- The words of a condition are names and numbers that are spelled as such. -/
def Condition.IsSpelled (c : Condition) : Prop := ∀ w ∈ c.words, Spelled w

namespace Condition.IsSpelled

variable {c left right : Condition} {a b : Calc} {op : Comparator} {k : Connective}

theorem compare (h : (Condition.compare a op b).IsSpelled) : a.IsSpelled ∧ b.IsSpelled := by
  simp only [Condition.IsSpelled, Condition.words, List.forall_mem_append] at h
  exact ⟨h.1.1, h.2⟩

theorem negation (h : (Condition.negation c).IsSpelled) : c.IsSpelled :=
  fun w hw => h w (.tail _ hw)

theorem group (h : (Condition.group c).IsSpelled) : c.IsSpelled := by
  simp only [Condition.IsSpelled, Condition.words, List.cons_append, List.forall_mem_cons,
    List.forall_mem_append] at h
  exact h.2.1

theorem joined (h : (Condition.joined left k right).IsSpelled) :
    left.IsSpelled ∧ right.IsSpelled := by
  simp only [Condition.IsSpelled, Condition.words, List.forall_mem_append,
    List.forall_mem_cons] at h
  exact ⟨h.1, h.2.2⟩

end Condition.IsSpelled

/-! ### Squeezed texts of conditions -/

/-- With its blanks squeezed the text of a condition is the tidy text `cs`, with a blank before it
or none. -/
structure Condition.Settles (c : Condition) (blank cs : List Char) : Prop where
  tidy : Tidy cs
  opens : Opens cs
  lead : blank ∈ [[], [' ']]
  squeezed : ∀ rest, Layout.squeezed (c.text.toList ++ rest) =
    blank ++ (cs ++ Layout.squeezed rest)

namespace Condition.Settles

variable {c left right : Condition} {blank blank' cs cs' : List Char}

theorem of_tidy (h : Tidy c.text.toList) (hopens : Opens c.text.toList) :
    c.Settles [] c.text.toList :=
  ⟨h, hopens, .head _, fun rest => h.squeezed_append rest⟩

/-- Behind a blank the text has no blank of its own. -/
theorem behind_blank (h : c.Settles blank cs) (rest : List Char) :
    Layout.squeezed (' ' :: (c.text.toList ++ rest)) = ' ' :: (cs ++ Layout.squeezed rest) := by
  have hsqueezed := h.squeezed rest
  have hhead := congrArg List.head? hsqueezed
  rw [Layout.head?_squeezed] at hhead
  have hblank : blank = [] ∨ blank = [' '] := by simpa using h.lead
  rw [Layout.squeezed_cons, hhead, hsqueezed]
  rcases hblank with rfl | rfl
  · have hcs := h.tidy.head
    rw [List.head?_eq_some_head h.tidy.nonempty] at hcs
    rw [if_neg, List.nil_append]
    rw [List.nil_append, List.head?_append, List.head?_eq_some_head h.tidy.nonempty,
      Option.some_or]
    exact fun hc => hcs hc.2
  · rw [if_pos ⟨rfl, rfl⟩]
    rfl

theorem group (h : c.Settles blank cs) :
    (Condition.group c).Settles [] ('(' :: (blank ++ (cs ++ [')']))) := by
  have hinner := h.tidy.append (.single (c := ')') (by decide) (by decide))
  have hopen : Tidy ['('] := .single (by decide) (by decide)
  refine ⟨hopen.join hinner h.lead, ⟨'(', _, rfl, by decide⟩, .head _, fun rest => ?_⟩
  have hclosed := h.squeezed (')' :: rest)
  rw [Layout.squeezed_of_ne (by decide)] at hclosed
  have htext : (Condition.group c).text.toList = '(' :: (c.text.toList ++ [')']) := by
    simp [Condition.text, toString]
  rw [htext, List.cons_append, Layout.squeezed_of_ne (by decide), List.append_assoc,
    List.singleton_append, hclosed]
  simp

theorem negation (h : c.Settles blank cs) :
    (Condition.negation c).Settles [' '] ("not".toList ++ '(' :: (blank ++ (cs ++ [')']))) := by
  have hword : Tidy "not".toList := .of_word (by decide)
  refine ⟨hword.append h.group.tidy, ⟨'n', _, rfl, by decide⟩, by simp, fun rest => ?_⟩
  have htext : (Condition.negation c).text.toList =
      ' ' :: ("not".toList ++ (Condition.group c).text.toList) := by
    simp [Condition.text, toString]
  rw [htext, List.cons_append, Layout.squeezed_cons, if_neg (by simp), List.append_assoc,
    hword.squeezed_append, h.group.squeezed rest]
  simp

theorem joined (h : left.Settles blank cs) (h' : right.Settles blank' cs') (k : Connective) :
    (Condition.joined left k right).Settles blank (cs ++ ' ' :: (k.text.toList ++ ' ' :: cs')) := by
  have hword : Tidy k.text.toList := by
    cases k <;> exact .of_word (by decide)
  refine ⟨h.tidy.spaced (hword.spaced h'.tidy), h.opens.append _, h.lead, fun rest => ?_⟩
  have htext : (Condition.joined left k right).text.toList =
      left.text.toList ++ ' ' :: (k.text.toList ++ ' ' :: right.text.toList) := by
    simp [Condition.text, toString]
  have hbehind : Layout.squeezed (' ' :: (k.text.toList ++ ' ' :: (right.text.toList ++ rest))) =
      ' ' :: (k.text.toList ++ ' ' :: (cs' ++ Layout.squeezed rest)) := by
    rw [Layout.squeezed_cons, if_neg, hword.squeezed_append, h'.behind_blank]
    rintro ⟨-, hhead⟩
    cases k <;> exact absurd hhead (by simp [Connective.text])
  rw [htext, List.append_assoc, List.cons_append, List.append_assoc, List.cons_append,
    h.squeezed, hbehind]
  simp

end Condition.Settles

/-! ### Reading conditions -/

/-- The text `cs` is read at the level as `o`, which it is not exactly where a keyword is among the
words `ws`. -/
structure DenotesWords (level : Precedence) (cs : List Char) (ws : List Word)
    (o : Option Expression) : Prop where
  denotes : Denotes level false cs o
  fails : o = none ↔ ∃ w ∈ ws, IsReserved w

namespace DenotesWords

variable {level : Precedence} {cs cs' : List Char} {ws ws' : List Word}
  {o o' : Option Expression}

theorem loosen (h : DenotesWords level cs ws o) {level' : Precedence}
    (hle : level'.rank ≤ level.rank) : DenotesWords level' cs ws o :=
  ⟨h.denotes.loosen hle, h.fails⟩

theorem of_calc {c : Calc} (hg : c.Grouped) (h : c.IsSpelled) :
    DenotesWords c.precedence c.text.toList c.words c.code? :=
  ⟨c.denotes hg h, c.code?_eq_none_iff h⟩

theorem joined (k : Connective) (h : DenotesWords (.ofConnective k) cs ws o)
    (h' : DenotesWords (Precedence.ofConnective k).operand cs' ws' o') :
    DenotesWords (.ofConnective k) (cs ++ ' ' :: (k.text.toList ++ ' ' :: cs'))
      (ws ++ k.kind.word :: ws') (o.bind fun x => o'.map (.joined x k)) := by
  refine ⟨.joined k h.denotes h'.denotes, ?_⟩
  rw [bind_map_eq_none_iff, h.fails, h'.fails]
  simp [or_and_right, exists_or]

end DenotesWords

/-- What compares in target code. -/
def Comparator.code : Comparator → Comparison
  | relation r => .relation r
  | member => .member
  | notMember => .notMember

theorem Condition.toList_text_compare (left right : Calc) (op : Comparator) :
    (Condition.compare left op right).text.toList =
      left.text.toList ++ ' ' :: (op.code.text.toList ++ ' ' :: (right.text.toList ++ [])) := by
  cases op <;> simp [Condition.text, toString, Comparator.text, Comparator.code,
    Code.Comparison.text]

theorem tidy_compare {left right : Calc} {op : Comparator}
    (h : (Condition.compare left op right).IsSpelled) :
    Tidy (Condition.compare left op right).text.toList := by
  have hop : Tidy op.code.text.toList := by
    cases op with
    | relation r => cases r <;> exact .of_word (by decide)
    | member => exact .of_word (by decide)
    | notMember =>
      have hnot : Tidy "not".toList := .of_word (by decide)
      have hin : Tidy "in".toList := .of_word (by decide)
      exact hnot.spaced hin
  rw [Condition.toList_text_compare, List.append_nil]
  exact (Calc.tidy left h.compare.1).spaced (hop.spaced (Calc.tidy right h.compare.2))

theorem opens_compare {left right : Calc} {op : Comparator}
    (h : (Condition.compare left op right).IsSpelled) :
    Opens (Condition.compare left op right).text.toList := by
  rw [Condition.toList_text_compare]
  exact (Calc.opens left h.compare.1).append _

/-- Two calculations with what compares them. -/
theorem denotesWords_compare {left right : Calc} {op : Comparator}
    (hg : (Condition.compare left op right).Grouped)
    (h : (Condition.compare left op right).IsSpelled) :
    ∃ o, DenotesWords .comparison (Condition.compare left op right).text.toList
      (Condition.compare left op right).words o := by
  have hl := Calc.denotes left hg.1 h.compare.1
  have hr := Calc.denotes right hg.2 h.compare.2
  have hsum : ∀ c : Calc, Precedence.sum.rank ≤ c.precedence.rank := fun c =>
    Calc.le_rank_precedence (Nat.zero_le 2) (Nat.zero_le _)
  have hothers := DenotesCompared.cons op.code (hr.loosen (hsum right)) .nil
  have hread := DenotesCompared.comparison (hl.loosen (hsum left)) hothers (by
    intro xs hxs
    rw [Option.mem_def, Option.bind_eq_some_iff] at hxs
    obtain ⟨x, -, hx⟩ := hxs
    cases hx
    exact nofun)
  refine ⟨_, Condition.toList_text_compare left right op ▸ hread, ?_⟩
  rw [bind_map_eq_none_iff, bind_map_eq_none_iff, Calc.code?_eq_none_iff left h.compare.1,
    Calc.code?_eq_none_iff right h.compare.2]
  cases op <;> simp [Condition.words, Comparator.words, or_and_right, exists_or]

/-- The parts of a condition in target code: all of it is joined by `and`, or there is a last part
behind an `or`. -/
inductive Condition.Parted : List Char → List Word → Prop where
  | one {cs : List Char} {ws : List Word} {o : Option Expression}
    (h : DenotesWords .and cs ws o) : Parted cs ws
  | more {cs cs' : List Char} {ws ws' : List Word} {o o' : Option Expression}
    (h : DenotesWords .or cs ws o) (h' : DenotesWords .and cs' ws' o') :
    Parted (cs ++ ' ' :: (Connective.or.text.toList ++ ' ' :: cs'))
      (ws ++ Kind.orKw.word :: ws')

namespace Condition.Parted

variable {cs cs' : List Char} {ws ws' : List Word} {o : Option Expression}

theorem denotes (h : Parted cs ws) : ∃ o, DenotesWords .or cs ws o := by
  cases h with
  | one h => exact ⟨_, h.loosen (by decide)⟩
  | more h h' => exact ⟨_, h.joined .or h'⟩

theorem and (h : Parted cs ws) (h' : DenotesWords .not cs' ws' o) :
    Parted (cs ++ ' ' :: (Connective.and.text.toList ++ ' ' :: cs'))
      (ws ++ Kind.andKw.word :: ws') := by
  cases h with
  | one h => exact .one (h.joined .and h')
  | more h h'' => simpa [Connective.kind] using Parted.more h (h''.joined .and h')

theorem or (h : Parted cs ws) (h' : DenotesWords .not cs' ws' o) :
    Parted (cs ++ ' ' :: (Connective.or.text.toList ++ ' ' :: cs'))
      (ws ++ Kind.orKw.word :: ws') := by
  obtain ⟨o', ho'⟩ := h.denotes
  exact .more ho' (h'.loosen (by decide))

end Condition.Parted

/-- A condition that stands alone in its text. -/
theorem Condition.settles_alone {c : Condition} {blank cs : List Char} {o : Option Expression}
    (hs : c.Settles blank cs) (h : DenotesWords .not cs c.words o) :
    ∃ blank cs, c.Settles blank cs ∧ Condition.Parted cs c.words ∧
      (c.isUnit = true → ∃ o, DenotesWords .not cs c.words o) :=
  ⟨_, _, hs, .one (h.loosen (by decide)), fun _ => ⟨_, h⟩⟩

/-- A condition in parentheses is read as the condition, with a blank before it or none. -/
theorem Condition.Settles.denotes_group {c : Condition} {blank cs : List Char}
    (hs : c.Settles blank cs) (h : Condition.Parted cs c.words) :
    ∃ o, DenotesWords .primary ('(' :: (blank ++ (cs ++ [')']))) (Condition.group c).words o := by
  obtain ⟨o, hread, hfails⟩ := h.denotes
  have htuple : Denotes .tuple false (blank ++ cs) o := by
    have hblank : blank = [] ∨ blank = [' '] := by simpa using hs.lead
    rcases hblank with rfl | rfl
    · exact hread.loosen (by decide)
    · exact (hread.loosen (by decide)).blank
  refine ⟨o, ?_, by rw [hfails]; simp [Condition.words]⟩
  simpa using htuple.parentheses.withoutDot

/-- A condition settles and is read by its parts, and at once if nothing is joined to it. -/
theorem Condition.settles : (c : Condition) → c.Grouped → c.IsSpelled →
    ∃ blank cs, c.Settles blank cs ∧ Condition.Parted cs c.words ∧
      (c.isUnit = true → ∃ o, DenotesWords .not cs c.words o)
  | .value c, hg, h => by
    have hle : Precedence.not.rank ≤ c.precedence.rank :=
      Nat.le_trans (by decide) (Calc.le_rank_precedence (Nat.zero_le 2) (Nat.zero_le _))
    exact settles_alone (.of_tidy (Calc.tidy c h) (Calc.opens c h))
      ((DenotesWords.of_calc hg h).loosen hle)
  | .compare left op right, hg, h => by
    obtain ⟨o, hread⟩ := denotesWords_compare hg h
    exact settles_alone (.of_tidy (tidy_compare h) (opens_compare h)) (hread.loosen (by decide))
  | .negation inner, hg, h => by
    obtain ⟨blank, cs, hs, hp, -⟩ := Condition.settles inner hg.1 h.negation
    obtain ⟨o, hread, hfails⟩ := hs.denotes_group hp
    refine settles_alone hs.negation (o := o.map (.unary .not)) ⟨?_, ?_⟩
    · exact .not (fun _ => .cons (by decide) _ _) (hread.loosen (by decide))
    · rw [Option.map_eq_none_iff, hfails]
      simp [Condition.words]
  | .group inner, hg, h => by
    obtain ⟨blank, cs, hs, hp, -⟩ := Condition.settles inner hg h.group
    obtain ⟨o, hread⟩ := hs.denotes_group hp
    exact settles_alone hs.group (hread.loosen (by decide))
  | .joined left k right, hg, h => by
    obtain ⟨blank, cs, hs, hp, -⟩ := Condition.settles left hg.1 h.joined.1
    obtain ⟨blank', cs', hs', -, hunit⟩ := Condition.settles right hg.2.1 h.joined.2
    obtain ⟨o, hread⟩ := hunit hg.2.2
    refine ⟨blank, _, hs.joined hs' k, ?_, nofun⟩
    cases k with
    | and => exact hp.and hread
    | or => exact hp.or hread

/-! ### Expressions that stand alone -/

/-- What target code reads for the text of an expression alone, with its blanks squeezed and without
those at its ends. -/
def expression? (text : String) : Option Expression :=
  match Code.Module.ofText (String.ofList (Text.trim (Layout.squeezed text.toList))) with
  | .ok ⟨[.expression x]⟩ => some x
  | _ => none

/-- What is read for a text where it stands is what is read for it alone. -/
theorem expression?_of_denotes {text : String} {blank cs : List Char} {x : Expression}
    (hsqueezed : Layout.squeezed text.toList = blank ++ cs) (hblank : blank ∈ [[], [' ']])
    (htidy : Tidy cs) (hopens : Opens cs) (h : Denotes .tuple false cs (some x)) :
    expression? text = some x := by
  have hread : Code.Module.ofText (String.ofList cs) = .ok ⟨[.expression x]⟩ :=
    Denotes.ofText (by rwa [String.toList_ofList]) (by rwa [String.toList_ofList])
  rw [expression?, hsqueezed, htidy.trimmed hblank, hread]

theorem Calc.expression?_text {c : Calc} {x : Expression} (hg : c.Grouped) (h : c.IsSpelled)
    (hx : c.code? = some x) : expression? c.text = some x :=
  expression?_of_denotes (Calc.tidy c h).squeezed (.head _) (Calc.tidy c h) (Calc.opens c h)
    (hx ▸ (c.denotes hg h).loosen (Nat.zero_le _))

theorem Condition.Settles.expression?_text {c : Condition} {blank cs : List Char} {x : Expression}
    (hs : c.Settles blank cs) (h : Denotes .or false cs (some x)) :
    expression? c.text = some x := by
  have hsqueezed := hs.squeezed []
  simp only [List.append_nil, Layout.squeezed] at hsqueezed
  exact expression?_of_denotes hsqueezed hs.lead hs.tidy hs.opens (h.loosen (by decide))

end Growth.Pseudo
