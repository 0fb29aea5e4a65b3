import Growth.Proofs.Rendition.Tidy

/-! Calculations in target code. The text of a calculation is read as the tree that the calculation
is, but for a number with a minus that is raised to a power: there the minus covers the power. -/

namespace Growth.Pseudo

open Code (Expression Denotes DenotesItems Opens Precedence Bracket)

/-! ### What a calculation is read as -/

/-- The digits of a number with a minus. -/
def Calc.negated? : Calc → Option (List Char)
  | number lexeme =>
    match Numeral.normal lexeme.toList with
    | '-' :: digits => some digits
    | _ => none
  | _ => none

mutual

/-- What target code reads for a calculation, if it reads it at all. -/
def Calc.code? : Calc → Option Expression
  | number lexeme => some (.ofNumeral (Numeral.normal lexeme.toList))
  | name n => Expression.ofName? n
  | call n arguments => (Expression.ofName? n).bind fun x => (Calc.codes? arguments).map (.call x)
  | item n index => (Expression.ofName? n).bind fun x => index.code?.map (.item x)
  | group inner => inner.code?
  | set items => (Calc.codes? items).map .set
  | list items => (Calc.codes? items).map .list
  | binary left op right => left.code?.bind fun x => right.code?.map fun y =>
    match op, left.negated? with
    | .power, some digits =>
      .unary .minus (.binary (.integer (String.ofList digits)) .power y)
    | _, _ => .binary x op y

/-- What target code reads for calculations, if it reads them all. -/
def Calc.codes? : List Calc → Option (List Expression)
  | [] => some []
  | c :: cs => c.code?.bind fun x => (Calc.codes? cs).map fun xs => x :: xs

end

/-- The level at which target code reads a calculation. -/
def Calc.precedence (c : Calc) : Precedence :=
  if c.level = 0 then .sum else if c.level = 1 then .product
  else if c.level = 2 ∨ c.negated?.isSome then .sign else .primary

/-- The words of a calculation are names and numbers that are spelled as such. -/
def Calc.IsSpelled (c : Calc) : Prop := ∀ w ∈ c.words, Spelled w

/-- The words of all of the calculations are spelled as such. -/
def Calc.AllSpelled (cs : List Calc) : Prop := ∀ c ∈ cs, c.IsSpelled

theorem Calc.mem_listed {cs : List Calc} {c : Calc} (hc : c ∈ cs) :
    ∀ w ∈ c.words, w ∈ Calc.listed cs := by
  induction cs with
  | nil => exact nomatch hc
  | cons d ds ih =>
    intro w hw
    rw [Calc.listed, List.mem_append]
    rcases List.mem_cons.mp hc with rfl | hc
    · exact .inl hw
    · rw [if_neg (by simpa using List.ne_nil_of_mem hc)]
      exact .inr (.tail _ (ih hc w hw))

namespace Calc.IsSpelled

variable {n lexeme : String} {c left right : Calc} {cs : List Calc} {op : Operator}

theorem number (h : (Calc.number lexeme).IsSpelled) : IsNumber lexeme :=
  h _ (.head _)

theorem name (h : (Calc.name n).IsSpelled) : IsName n :=
  h _ (.head _)

theorem allSpelled (h : ∀ w ∈ Calc.listed cs, Spelled w) : Calc.AllSpelled cs :=
  fun _ hc w hw => h w (Calc.mem_listed hc w hw)

theorem call (h : (Calc.call n cs).IsSpelled) : IsName n ∧ Calc.AllSpelled cs := by
  simp only [Calc.IsSpelled, Calc.words, List.cons_append, List.forall_mem_cons,
    List.forall_mem_append] at h
  exact ⟨h.1, allSpelled h.2.2.1⟩

theorem item (h : (Calc.item n c).IsSpelled) : IsName n ∧ c.IsSpelled := by
  simp only [Calc.IsSpelled, Calc.words, List.cons_append, List.forall_mem_cons,
    List.forall_mem_append] at h
  exact ⟨h.1, h.2.2.1⟩

theorem group (h : (Calc.group c).IsSpelled) : c.IsSpelled := by
  simp only [Calc.IsSpelled, Calc.words, List.cons_append, List.forall_mem_cons,
    List.forall_mem_append] at h
  exact h.2.1

theorem set (h : (Calc.set cs).IsSpelled) : Calc.AllSpelled cs := by
  simp only [Calc.IsSpelled, Calc.words, List.cons_append, List.forall_mem_cons,
    List.forall_mem_append] at h
  exact allSpelled h.2.1

theorem list (h : (Calc.list cs).IsSpelled) : Calc.AllSpelled cs := by
  simp only [Calc.IsSpelled, Calc.words, List.cons_append, List.forall_mem_cons,
    List.forall_mem_append] at h
  exact allSpelled h.2.1

theorem binary (h : (Calc.binary left op right).IsSpelled) : left.IsSpelled ∧ right.IsSpelled := by
  simp only [Calc.IsSpelled, Calc.words, List.forall_mem_append, List.forall_mem_cons] at h
  exact ⟨h.1, h.2.2⟩

end Calc.IsSpelled

/-! ### The text of a calculation is tidy -/

attribute [local simp] Calc.text

theorem Calc.toList_text_call (n : String) (arguments : List Calc) :
    (Calc.call n arguments).text.toList =
      n.toList ++ '(' :: ((", ".intercalate (Calc.texts arguments)).toList ++ [')']) := by
  rw [Calc.text]
  generalize ", ".intercalate (Calc.texts arguments) = list
  simp

theorem Calc.toList_text_set (items : List Calc) :
    (Calc.set items).text.toList =
      '\x7b' :: ((",".intercalate (Calc.texts items)).toList ++ ['\x7d']) := by
  rw [Calc.text]
  generalize ",".intercalate (Calc.texts items) = list
  simp

theorem Calc.toList_text_list (items : List Calc) :
    (Calc.list items).text.toList =
      '[' :: ((",".intercalate (Calc.texts items)).toList ++ [']']) := by
  rw [Calc.text]
  generalize ",".intercalate (Calc.texts items) = list
  simp

theorem Calc.toList_text_item (n : String) (index : Calc) :
    (Calc.item n index).text.toList = n.toList ++ '[' :: (index.text.toList ++ [']']) := by
  simp [toString]

theorem Calc.toList_text_group (inner : Calc) :
    (Calc.group inner).text.toList = '(' :: (inner.text.toList ++ [')']) := by
  simp [toString]

theorem Calc.toList_text_binary (left right : Calc) (op : Operator) :
    (Calc.binary left op right).text.toList =
      left.text.toList ++ ' ' :: (op.text.toList ++ ' ' :: right.text.toList) := by
  simp [toString]

theorem Operator.tidy_text (op : Operator) : Tidy op.text.toList := by
  cases op <;> exact .of_word (by decide)

theorem tidy_intercalate {sep : String} (hsep : sep = "," ∨ sep = ", ") {ss : List String}
    (hne : ss ≠ []) (h : ∀ s ∈ ss, Tidy s.toList) : Tidy (sep.intercalate ss).toList := by
  induction ss with
  | nil => exact absurd rfl hne
  | cons s ss ih =>
    obtain ⟨hs, hss⟩ := List.forall_mem_cons.mp h
    cases ss with
    | nil => simpa using hs
    | cons t ts =>
      rw [String.intercalate_cons_cons, String.toList_append, String.toList_append,
        List.append_assoc]
      have hmore := ih nofun hss
      have hcomma : Tidy [','] := .single (by decide) (by decide)
      rcases hsep with rfl | rfl
      · exact hs.append (hcomma.append hmore)
      · exact hs.append (hcomma.spaced hmore)

/-- Items between brackets. -/
theorem tidy_bracketed {sep : String} (hsep : sep = "," ∨ sep = ", ") {ss : List String}
    (h : ∀ s ∈ ss, Tidy s.toList) {left right : Char} (hl : isPrintable left = true ∧ left ≠ ' ')
    (hr : isPrintable right = true ∧ right ≠ ' ') :
    Tidy (left :: (sep.intercalate ss).toList ++ [right]) := by
  have hleft : Tidy [left] := .single hl.1 hl.2
  have hright : Tidy [right] := .single hr.1 hr.2
  by_cases hne : ss = []
  · subst hne
    exact hleft.append hright
  · exact (hleft.append (tidy_intercalate hsep hne h)).append hright

mutual

/-- The text of a calculation has no two blanks side by side. -/
theorem Calc.tidy : (c : Calc) → c.IsSpelled → Tidy c.text.toList
  | .number _, h => h.number.tidy
  | .name _, h => h.name.tidy
  | .call n arguments, h => by
    have harguments : Tidy ('(' :: (", ".intercalate (Calc.texts arguments)).toList ++ [')']) :=
      tidy_bracketed (.inr rfl) (Calc.allTidy arguments h.call.2) (by decide) (by decide)
    rw [Calc.toList_text_call]
    exact h.call.1.tidy.append harguments
  | .item n index, h => by
    have hindex := (Calc.tidy index h.item.2).append (.single (c := ']') (by decide) (by decide))
    rw [Calc.toList_text_item]
    exact h.item.1.tidy.append (hindex.cons (by decide) (by decide))
  | .group inner, h => by
    have hinner := (Calc.tidy inner h.group).append (.single (c := ')') (by decide) (by decide))
    rw [Calc.toList_text_group]
    exact hinner.cons (by decide) (by decide)
  | .set items, h => by
    rw [Calc.toList_text_set]
    exact tidy_bracketed (.inl rfl) (Calc.allTidy items h.set) (by decide) (by decide)
  | .list items, h => by
    rw [Calc.toList_text_list]
    exact tidy_bracketed (.inl rfl) (Calc.allTidy items h.list) (by decide) (by decide)
  | .binary left op right, h => by
    have hright := (Operator.tidy_text op).spaced (Calc.tidy right h.binary.2)
    rw [Calc.toList_text_binary]
    exact (Calc.tidy left h.binary.1).spaced hright

theorem Calc.allTidy : (cs : List Calc) → Calc.AllSpelled cs →
    ∀ s ∈ Calc.texts cs, Tidy s.toList
  | [], _ => nofun
  | c :: cs, h => by
    obtain ⟨hc, hcs⟩ := List.forall_mem_cons.mp h
    exact List.forall_mem_cons.mpr ⟨Calc.tidy c hc, Calc.allTidy cs hcs⟩

end

/-! ### The text of a calculation begins with a word -/

theorem IsNumber.opens {lexeme : String} (h : IsNumber lexeme) :
    Opens (Numeral.normalized lexeme).toList := by
  rw [Numeral.normalized, String.toList_ofList]
  obtain ⟨digits, hdigits, heq | heq⟩ := h.normal
  · rw [heq]
    exact hdigits.spells.opens
  · rw [heq]
    exact ⟨'-', digits, rfl, by decide⟩

theorem Calc.opens : (c : Calc) → c.IsSpelled → Opens c.text.toList
  | .number _, h => h.number.opens
  | .name _, h => h.name.opens
  | .call _ _, h => by
    rw [Calc.toList_text_call]
    exact h.call.1.opens.append _
  | .item _ _, h => by
    rw [Calc.toList_text_item]
    exact h.item.1.opens.append _
  | .group _, _ => by
    rw [Calc.toList_text_group]
    exact ⟨'(', _, rfl, by decide⟩
  | .set _, _ => by
    rw [Calc.toList_text_set]
    exact ⟨'\x7b', _, rfl, by decide⟩
  | .list _, _ => by
    rw [Calc.toList_text_list]
    exact ⟨'[', _, rfl, by decide⟩
  | .binary left _ _, h => by
    rw [Calc.toList_text_binary]
    exact (Calc.opens left h.binary.1).append _

/-! ### The text of a calculation is read -/

section Levels

variable {c left right : Calc} {op : Operator}

theorem Calc.le_rank_precedence {n : Nat} (hn : n ≤ 2) (h : n ≤ c.level) :
    5 + n ≤ c.precedence.rank := by
  unfold Calc.precedence
  split
  · simp only [Precedence.rank]
    omega
  · split
    · simp only [Precedence.rank]
      omega
    · split <;> simp only [Precedence.rank] <;> omega

theorem Calc.precedence_eq_primary (h : 2 < c.level) (hn : c.negated? = none) :
    c.precedence = .primary := by
  unfold Calc.precedence
  rw [if_neg (by omega), if_neg (by omega), if_neg]
  rintro (h2 | hsome)
  · omega
  · rw [hn] at hsome
    exact nomatch hsome

theorem Calc.precedence_power : (Calc.binary left .power right).precedence = .sign := rfl

theorem Calc.precedence_binary (hop : op ≠ .power) :
    (Calc.binary left op right).precedence = .ofOperator op := by
  cases op <;> first | rfl | exact absurd rfl hop

theorem Operator.rank_precedence (hop : op ≠ .power) :
    (Precedence.ofOperator op).rank = 5 + op.level ∧
      (Precedence.ofOperator op).operand.rank = 6 + op.level := by
  cases op <;> first | exact ⟨rfl, rfl⟩ | exact absurd rfl hop

theorem Calc.code?_binary (hop : op ≠ .power) : (Calc.binary left op right).code? =
    left.code?.bind fun x => right.code?.map fun y => .binary x op y := by
  cases op <;> first | rfl | exact absurd rfl hop

theorem Calc.code?_power (hn : left.negated? = none) : (Calc.binary left .power right).code? =
    left.code?.bind fun x => right.code?.map fun y => .binary x .power y := by
  rw [Calc.code?, hn]

theorem Calc.code?_power_of_negated {digits : List Char} (hn : left.negated? = some digits) :
    (Calc.binary left .power right).code? = left.code?.bind fun _ => right.code?.map fun y =>
      .unary .minus (.binary (.integer (String.ofList digits)) .power y) := by
  rw [Calc.code?, hn]

/-- A calculation that has a minus is a number. -/
theorem Calc.negated?_eq_some {digits : List Char} (h : c.negated? = some digits) :
    ∃ lexeme, c = .number lexeme ∧ Numeral.normal lexeme.toList = '-' :: digits := by
  cases c with
  | number lexeme =>
    refine ⟨lexeme, rfl, ?_⟩
    unfold Calc.negated? at h
    dsimp only at h
    split at h
    · rename_i heq
      rw [heq, Option.some.inj h]
    · exact nomatch h
  | _ => exact nomatch h

theorem Calc.codes?_singleton : Calc.codes? [c] = c.code?.map fun x => [x] := by
  rw [Calc.codes?, Calc.codes?]
  cases c.code? <;> rfl

/-- Every calculation can stand between commas. -/
theorem Calc.or_le_precedence : Precedence.or.rank ≤ c.precedence.rank :=
  Nat.le_trans (by decide) (Calc.le_rank_precedence (Nat.zero_le 2) (Nat.zero_le _))

end Levels

theorem IsWhole.ofNumeral_eq {digits : List Char} (h : IsWhole digits) :
    Expression.ofNumeral digits = .integer (String.ofList digits) := by
  rw [Expression.ofNumeral]
  exact h.ne_minus

theorem IsWhole.denotes {digits : List Char} (h : IsWhole digits) :
    Denotes .primary false digits (some (.integer (String.ofList digits))) :=
  .of_spells h.spells (.integer _)

theorem IsNumber.denotes {lexeme : String} (h : IsNumber lexeme) :
    Denotes (Calc.number lexeme).precedence false (Numeral.normalized lexeme).toList
      (some (.ofNumeral (Numeral.normal lexeme.toList))) := by
  rw [Numeral.normalized, String.toList_ofList]
  obtain ⟨digits, hdigits, heq | heq⟩ := h.normal
  · have hnegated : (Calc.number lexeme).negated? = none := by
      cases hn : (Calc.number lexeme).negated? with
      | none => rfl
      | some rest =>
        obtain ⟨_, ⟨⟩, hrest⟩ := Calc.negated?_eq_some hn
        exact absurd (heq.symm.trans hrest) (hdigits.ne_minus rest)
    have hlevel : 2 < (Calc.number lexeme).level := Nat.le_refl 3
    rw [Calc.precedence_eq_primary hlevel hnegated, heq, hdigits.ofNumeral_eq]
    exact hdigits.denotes
  · have hlevel : (Calc.number lexeme).precedence = .sign := by
      simp [Calc.precedence, Calc.level, Calc.negated?, heq]
    rw [hlevel, heq]
    exact .minus hdigits.spells.opens (hdigits.denotes.loosen (by decide))

/-- A number with a minus that is raised to a power is read as the power with a minus before it. -/
theorem denotes_negated_power {left right : Calc} {digits : List Char} (h : left.IsSpelled)
    (hn : left.negated? = some digits) (hright : Denotes .sign false right.text.toList right.code?) :
    Denotes .sign false (Calc.binary left .power right).text.toList
      (Calc.binary left .power right).code? := by
  rw [Calc.code?_power_of_negated hn, Calc.toList_text_binary]
  obtain ⟨lexeme, rfl, heq⟩ := Calc.negated?_eq_some hn
  obtain ⟨digits', hdigits, heq' | heq'⟩ := h.number.normal
  · exact absurd (heq'.symm.trans heq) (hdigits.ne_minus digits)
  · obtain rfl : digits = digits' := by simpa using heq.symm.trans heq'
    have hpower := hdigits.denotes.power hright
    rw [Calc.text, Numeral.normalized, String.toList_ofList, heq]
    have hread := Denotes.minus (hdigits.spells.opens.append _) (hpower.loosen (by decide))
    simpa [Calc.code?, Option.map_map, Function.comp_def] using hread

mutual

/-- The text of a calculation is read at its level. -/
theorem Calc.denotes : (c : Calc) → c.Grouped → c.IsSpelled →
    Denotes c.precedence false c.text.toList c.code?
  | .number _, _, h => h.number.denotes
  | .name _, _, h => h.name.denotes.withoutDot
  | .call n arguments, hg, h => by
    have harguments := Calc.denotesItems .round (.inr rfl) arguments hg h.call.2
    rw [Calc.toList_text_call]
    exact (h.call.1.denotes.call harguments).withoutDot
  | .item n index, hg, h => by
    have hindex := Calc.denotes index hg h.item.2
    rw [Calc.toList_text_item]
    exact (h.item.1.denotes.item (hindex.loosen (Nat.zero_le _))).withoutDot
  | .group inner, hg, h => by
    have hinner := Calc.denotes inner hg h.group
    rw [Calc.toList_text_group]
    exact (hinner.loosen (Nat.zero_le _)).parentheses.withoutDot
  | .set [], hg, _ => absurd rfl hg.1
  | .set [c], hg, h => by
    have hc : Denotes .or false c.text.toList c.code? :=
      (Calc.denotes c hg.2.1 (h.set c (.head _))).loosen Calc.or_le_precedence
    have hset := hc.singleton.withoutDot
    rw [Calc.toList_text_set, Calc.code?, Calc.codes?_singleton, Option.map_map]
    exact hset
  | .set (c :: d :: cs), hg, h => by
    have hc : Denotes .or false c.text.toList c.code? :=
      (Calc.denotes c hg.2.1 (h.set c (.head _))).loosen Calc.or_le_precedence
    have hitems := Calc.denotesItems .curly (.inl rfl) (d :: cs) hg.2.2
      fun x hx => h.set x (.tail _ hx)
    have hset := (hc.set hitems).withoutDot
    have htext : (Calc.set (c :: d :: cs)).text.toList =
        '\x7b' :: (c.text.toList ++
          ',' :: ((",".intercalate (Calc.texts (d :: cs))).toList ++ ['\x7d'])) := by
      rw [Calc.toList_text_set, Calc.texts, Calc.texts, String.intercalate_cons_cons]
      simp
    have hcode : (Calc.set (c :: d :: cs)).code? =
        c.code?.bind fun x => (Calc.codes? (d :: cs)).map fun xs => .set (x :: xs) := by
      rw [Calc.code?, Calc.codes?, Option.map_bind]
      simp [Function.comp_def]
    rw [htext, hcode]
    exact hset
  | .list items, hg, h => by
    have hitems := Calc.denotesItems .square (.inl rfl) items hg h.list
    rw [Calc.toList_text_list]
    exact (Denotes.list hitems).withoutDot
  | .binary left op right, hg, h => by
    have hleft := Calc.denotes left hg.1 h.binary.1
    have hright := Calc.denotes right hg.2.1 h.binary.2
    have hlevels := hg.2.2
    by_cases hop : op = .power
    · subst hop
      rw [if_pos rfl] at hlevels
      rw [Calc.precedence_power]
      have hexponent : Denotes .sign false right.text.toList right.code? :=
        hright.loosen (Calc.le_rank_precedence (Nat.le_refl 2) hlevels.2)
      cases hn : left.negated? with
      | some digits => exact denotes_negated_power h.binary.1 hn hexponent
      | none =>
        rw [Calc.precedence_eq_primary hlevels.1 hn] at hleft
        rw [Calc.toList_text_binary, Calc.code?_power hn]
        exact (hleft.power hexponent).loosen (by decide)
    · rw [if_neg hop] at hlevels
      have hle : op.level ≤ 1 := by
        have := op.level_le
        have := mt Operator.level_eq_two_iff.mp hop
        omega
      have hranks := Operator.rank_precedence hop
      have hlowest := Calc.le_rank_precedence (c := right) (n := op.level + 1) (by omega) hlevels.2
      have hl : Denotes (.ofOperator op) false left.text.toList left.code? :=
        hleft.loosen (hranks.1 ▸ Calc.le_rank_precedence (by omega) hlevels.1)
      have hr : Denotes (Precedence.ofOperator op).operand false right.text.toList right.code? :=
        hright.loosen (by omega)
      rw [Calc.precedence_binary hop, Calc.toList_text_binary, Calc.code?_binary hop]
      exact .binary hop hl hr

theorem Calc.denotesItems (b : Bracket) {sep : String} (hsep : sep = "," ∨ sep = ", ") :
    (cs : List Calc) → Calc.AllGrouped cs → Calc.AllSpelled cs →
      DenotesItems b ((sep.intercalate (Calc.texts cs)).toList ++ [b.closing]) (Calc.codes? cs)
  | [], _, _ => .nil b
  | [c], hg, h => by
    have hc : Denotes .or false c.text.toList c.code? :=
      (Calc.denotes c hg.1 (h c (.head _))).loosen Calc.or_le_precedence
    rw [Calc.codes?_singleton, Calc.texts, Calc.texts, String.intercalate_singleton]
    exact .one hc
  | c :: d :: cs, hg, h => by
    have hc : Denotes .or false c.text.toList c.code? :=
      (Calc.denotes c hg.1 (h c (.head _))).loosen Calc.or_le_precedence
    have hitems := Calc.denotesItems b hsep (d :: cs) hg.2 fun x hx => h x (.tail _ hx)
    rw [Calc.texts, Calc.texts, String.intercalate_cons_cons, Calc.codes?]
    rw [Calc.texts] at hitems
    rcases hsep with rfl | rfl
    · simpa using DenotesItems.cons hc hitems
    · simpa using DenotesItems.cons hc hitems.blank

end

/-! ### Calculations that are not read -/

/-- A reading in two steps fails where one of them does. -/
theorem bind_map_eq_none_iff {α β γ : Type} {o : Option α} {o' : Option β} {f : α → β → γ} :
    (o.bind fun x => o'.map (f x)) = none ↔ o = none ∨ o' = none := by
  cases o <;> cases o' <;> simp

mutual

/-- A calculation is read unless a keyword stands where a value is needed. -/
theorem Calc.code?_eq_none_iff : (c : Calc) → c.IsSpelled →
    (c.code? = none ↔ ∃ w ∈ c.words, IsReserved w)
  | .number _, _ => by simp [Calc.code?, Calc.words]
  | .name n, h => by simp [Calc.code?, Calc.words, h.name.ofName?_eq_none_iff]
  | .call n arguments, h => by
    rw [Calc.code?, bind_map_eq_none_iff, h.call.1.ofName?_eq_none_iff,
      Calc.codes?_eq_none_iff arguments h.call.2]
    simp [Calc.words]
  | .item n index, h => by
    rw [Calc.code?, bind_map_eq_none_iff, h.item.1.ofName?_eq_none_iff,
      Calc.code?_eq_none_iff index h.item.2]
    simp [Calc.words]
  | .group inner, h => by
    rw [Calc.code?, Calc.code?_eq_none_iff inner h.group]
    simp [Calc.words]
  | .set items, h => by
    rw [Calc.code?, Option.map_eq_none_iff, Calc.codes?_eq_none_iff items h.set]
    simp [Calc.words]
  | .list items, h => by
    rw [Calc.code?, Option.map_eq_none_iff, Calc.codes?_eq_none_iff items h.list]
    simp [Calc.words]
  | .binary left op right, h => by
    rw [Calc.code?, bind_map_eq_none_iff, Calc.code?_eq_none_iff left h.binary.1,
      Calc.code?_eq_none_iff right h.binary.2]
    simp [Calc.words, or_and_right, exists_or]

theorem Calc.codes?_eq_none_iff : (cs : List Calc) → Calc.AllSpelled cs →
    (Calc.codes? cs = none ↔ ∃ w ∈ Calc.listed cs, IsReserved w)
  | [], _ => by simp [Calc.codes?, Calc.listed]
  | c :: cs, h => by
    obtain ⟨hc, hcs⟩ := List.forall_mem_cons.mp h
    rw [Calc.codes?, bind_map_eq_none_iff, Calc.code?_eq_none_iff c hc,
      Calc.codes?_eq_none_iff cs hcs, Calc.listed]
    by_cases hne : cs = []
    · subst hne
      simp [Calc.listed]
    · simp [hne, or_and_right, exists_or]

end

end Growth.Pseudo
