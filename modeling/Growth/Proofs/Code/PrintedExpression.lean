import Growth.Proofs.Code.Denotes
import Growth.Proofs.Code.FloatText

/-! The text of an expression is read as that expression, at the expression's own level and at every
looser one. -/

namespace Growth.Code

/-! ### Printable expressions -/

/-- The quote between which a content is printed. -/
def chosenQuote (content : String) : Char :=
  if content.contains '\'' && !content.contains '"' then '"' else '\''

theorem quotedContent_toList (content : String) :
    (quotedContent content).toList = chosenQuote content :: content.toList ++
      [chosenQuote content] := by
  unfold quotedContent chosenQuote
  split <;> simp

/-- A content that can stand between quotes: characters that are neither a line end nor the quote nor
a backslash, and backslashes before one character that is no line end. -/
inductive Quotable (quote : Char) : List Char → Prop where
  | nil : Quotable quote []
  | plain {c : Char} {cs : List Char} (hn : c ≠ '\n') (hq : c ≠ quote) (hb : c ≠ '\\')
    (h : Quotable quote cs) : Quotable quote (c :: cs)
  | escaped {c : Char} {cs : List Char} (hn : c ≠ '\n') (h : Quotable quote cs) :
    Quotable quote ('\\' :: c :: cs)

theorem Quotable.quotation {quote : Char} {cs : List Char} (h : Quotable quote cs)
    (hb : quote ≠ '\\') (hn : quote ≠ '\n') :
    quotation quote false (cs ++ [quote]) = (cs, true) := by
  induction h with
  | nil => simp [Code.quotation, hn]
  | @plain c cs hn hq hb _ ih =>
    have hslash : (c == '\\') = false := by simp [hb]
    simp [Code.quotation, hn, hq, hslash, ih]
  | escaped hn _ ih => simp [Code.quotation, hn, hb.symm, ih]

theorem Quotable.spells {content : String} (h : Quotable (chosenQuote content) content.toList) :
    Spells (quotedContent content).toList (.string content) := by
  rw [quotedContent_toList]
  have hquote : chosenQuote content = '"' ∨ chosenQuote content = '\'' := by
    unfold chosenQuote
    split <;> simp
  refine ⟨chosenQuote content, content.toList ++ [chosenQuote content], rfl, ?_⟩
  have hread := h.quotation (by rcases hquote with h | h <;> rw [h] <;> decide)
    (by rcases hquote with h | h <;> rw [h] <;> decide)
  rw [lexeme_of_quote hquote hread, String.ofList_toList]

/-- A finite number without a sign. -/
def PrintableFloat (v : Binary64) : Prop :=
  ∃ m : Fin (2047 * 2 ^ 52 + 1), v = .number false m ∧ m.val < Binary64.infinite

theorem PrintableFloat.spells {v : Binary64} (h : PrintableFloat v) :
    Spells v.text.toList (.float v) := by
  obtain ⟨m, rfl, hm⟩ := h
  exact spells_float hm

namespace Expression

/-- Whether an expression is a whole number, which no field can follow. -/
def isInteger : Expression → Bool
  | integer _ => true
  | _ => false

mutual

/-- The parts of an expression have a text: names are identifiers, whole numbers and strings are
spelled as such, numbers are finite and have no sign, sets and comparisons are not empty, and no field
is taken of a whole number. -/
def Printable : Expression → Prop
  | integer l => Spells l.toList (.integer l)
  | float v => PrintableFloat v
  | string content => Quotable (chosenQuote content) content.toList
  | boolean _ => True
  | none => True
  | name n => Spells n.toList (.identifier n)
  | list items => AllPrintable items
  | tuple items => AllPrintable items
  | set items => items ≠ [] ∧ AllPrintable items
  | dict entries => EntriesPrintable entries
  | item object index => object.Printable ∧ index.Printable
  | field object n => object.Printable ∧ object.isInteger = false ∧ Spells n.toList (.identifier n)
  | binary left _ right => left.Printable ∧ right.Printable
  | unary _ operand => operand.Printable
  | joined left _ right => left.Printable ∧ right.Printable
  | compare first others => first.Printable ∧ others ≠ [] ∧ ComparedPrintable others
  | call callee arguments => callee.Printable ∧ AllPrintable arguments

/-- All of the expressions are printable. -/
def AllPrintable : List Expression → Prop
  | [] => True
  | x :: xs => x.Printable ∧ AllPrintable xs

/-- All keys and values are printable. -/
def EntriesPrintable : List (Expression × Expression) → Prop
  | [] => True
  | (key, value) :: entries => key.Printable ∧ value.Printable ∧ EntriesPrintable entries

/-- All further operands of a comparison are printable. -/
def ComparedPrintable : List (Comparison × Expression) → Prop
  | [] => True
  | (_, x) :: others => x.Printable ∧ ComparedPrintable others

end

/-- Whether a point can follow the text of an expression. -/
def takesDot : Expression → Bool
  | integer _ | tuple _ | binary .. | unary .. | joined .. | compare .. => false
  | _ => true

theorem takesDot_of_primary {x : Expression} (h : Precedence.primary.rank ≤ x.precedence.rank)
    (hx : x.isInteger = false) : x.takesDot = true := by
  cases x with
  | integer _ => exact nomatch hx
  | binary _ op _ =>
    have hop : (Precedence.ofOperator op).rank < Precedence.primary.rank := by
      cases op <;> decide
    exact absurd h (Nat.not_le_of_lt hop)
  | unary op _ => cases op <;> simp [precedence, Precedence.rank] at h
  | joined _ connective _ =>
    cases connective <;> simp [precedence, Precedence.ofConnective, Precedence.rank] at h
  | tuple _ | compare _ _ => simp [precedence, Precedence.rank] at h
  | _ => rfl

/-- The text of an expression is read as that expression. -/
def ReadsBack (x : Expression) : Prop :=
  Denotes x.precedence x.takesDot x.text.toList (some x)

namespace ReadsBack

variable {x : Expression}

theorem parentheses (h : x.ReadsBack) :
    Denotes .primary true ("(" ++ x.text ++ ")").toList (some x) := by
  have hloose : Denotes .tuple x.takesDot x.text.toList (some x) :=
    Denotes.loosen h (Nat.zero_le _)
  simpa using hloose.parentheses

theorem atLeast (h : x.ReadsBack) (level : Precedence) :
    Denotes level false (x.atLeast level x.text).toList (some x) := by
  unfold Expression.atLeast
  split
  · exact (h.parentheses.loosen (by cases level <;> decide)).withoutDot
  · rename_i hle
    exact (Denotes.loosen h (by omega)).withoutDot

/-- An expression before a field. -/
theorem atLeast_primary (h : x.ReadsBack) (hx : x.isInteger = false) :
    Denotes .primary true (x.atLeast .primary x.text).toList (some x) := by
  unfold Expression.atLeast
  split
  · exact h.parentheses
  · rename_i hle
    have hdot := takesDot_of_primary (Nat.le_of_not_lt hle) hx
    have hread : Denotes .primary x.takesDot x.text.toList (some x) :=
      Denotes.loosen h (by omega)
    rwa [hdot] at hread

/-- An expression on the right side of an operator that groups to the left. -/
theorem above (h : x.ReadsBack) {level level' : Precedence} (hlevel : level'.rank = level.rank + 1) :
    Denotes level' false (x.above level x.text).toList (some x) := by
  unfold Expression.above
  split
  · exact (h.parentheses.loosen (by cases level' <;> decide)).withoutDot
  · rename_i hle
    exact (Denotes.loosen h (by omega)).withoutDot

end ReadsBack

/-! ### How texts begin -/

-- Each case of the printed text is a rewrite rule from here on.
attribute [local simp] text itemTexts

theorem opens_atLeast {x : Expression} (h : Opens x.text.toList) (level : Precedence) :
    Opens (x.atLeast level x.text).toList := by
  unfold atLeast
  split
  · exact ⟨'(', (x.text ++ ")").toList, by simp, by decide⟩
  · exact h

theorem opens_above {x : Expression} (h : Opens x.text.toList) (level : Precedence) :
    Opens (x.above level x.text).toList := by
  unfold above
  split
  · exact ⟨'(', (x.text ++ ")").toList, by simp, by decide⟩
  · exact h

/-- The text of an expression begins with a token. -/
theorem opens : (x : Expression) → x.Printable → Opens x.text.toList
  | integer _, h => h.opens
  | float _, h => h.spells.opens
  | string _, h => h.spells.opens
  | boolean true, _ => ⟨'T', _, rfl, by decide⟩
  | boolean false, _ => ⟨'F', _, rfl, by decide⟩
  | none, _ => ⟨'N', _, rfl, by decide⟩
  | name _, h => h.opens
  | list _, _ => ⟨'[', _, by rw [text, String.append_assoc, String.toList_append]; rfl, by decide⟩
  | tuple _, _ =>
    ⟨'(', _, by rw [text, String.append_assoc, String.append_assoc, String.toList_append]; rfl,
      by decide⟩
  | set _, _ =>
    ⟨'\x7b', _, by rw [text, String.append_assoc, String.toList_append]; rfl, by decide⟩
  | dict _, _ =>
    ⟨'\x7b', _, by rw [text, String.append_assoc, String.toList_append]; rfl, by decide⟩
  | item object index, h => by
    rw [text, String.append_assoc, String.append_assoc, String.toList_append]
    exact (opens_atLeast (opens object h.1) _).append _
  | field object n, h => by
    rw [text, String.append_assoc, String.toList_append]
    exact (opens_atLeast (opens object h.1) _).append _
  | binary left op right, h => by
    by_cases hop : op = .power
    · subst hop
      rw [text, String.append_assoc, String.toList_append]
      exact (opens_atLeast (opens left h.1) _).append _
    · rw [text]
      · simp only [String.append_assoc]
        rw [String.toList_append]
        exact (opens_atLeast (opens left h.1) _).append _
      · exact hop
  | unary .minus _, _ => ⟨'-', _, by rw [text, String.toList_append]; rfl, by decide⟩
  | unary .plus _, _ => ⟨'+', _, by rw [text, String.toList_append]; rfl, by decide⟩
  | unary .not _, _ => ⟨'n', _, by rw [text, String.toList_append]; rfl, by decide⟩
  | joined left connective right, h => by
    rw [text]
    simp only [String.append_assoc]
    rw [String.toList_append]
    exact (opens_atLeast (opens left h.1) _).append _
  | compare first others, h => by
    rw [text, String.toList_append]
    exact (opens_above (opens first h.1) _).append _
  | call callee arguments, h => by
    rw [text, String.append_assoc, String.append_assoc, String.toList_append]
    exact (opens_atLeast (opens callee h.1) _).append _

/-- Texts with commas between them, from the second one on. -/
theorem intercalate_toList (s : String) (ss : List String) :
    (", ".intercalate (s :: ss)).toList = s.toList ++ ss.flatMap fun t => ',' :: ' ' :: t.toList := by
  induction ss generalizing s with
  | nil => simp
  | cons t ss ih =>
    rw [String.intercalate_cons_cons, String.toList_append, ih]
    simp

/-! ### What texts are read as -/

namespace ReadsBack

theorem of_denotes {x : Expression} {cs : List Char} (h : Denotes x.precedence x.takesDot cs (some x))
    (hcs : x.text.toList = cs) : x.ReadsBack := by
  unfold ReadsBack
  rwa [hcs]

theorem integer {l : String} (h : Spells l.toList (.integer l)) : (integer l).ReadsBack :=
  .of_spells h (.integer l)

theorem float {v : Binary64} (h : PrintableFloat v) : (float v).ReadsBack :=
  .of_spells h.spells (.float v)

theorem string {s : String} (h : Quotable (chosenQuote s) s.toList) : (string s).ReadsBack :=
  .of_spells h.spells (.string s)

theorem boolean (b : Bool) : (boolean b).ReadsBack := by
  cases b with
  | true => exact .of_spells (.keyword "True" (by decide)) (.boolean true)
  | false => exact .of_spells (.keyword "False" (by decide)) (.boolean false)

theorem noneLiteral : none.ReadsBack :=
  .of_spells (.keyword "None" (by decide)) .noneLiteral

theorem name {n : String} (h : Spells n.toList (.identifier n)) : (name n).ReadsBack :=
  .of_spells h (.name n)

variable {x y : Expression}

theorem item (hx : x.ReadsBack) (hy : y.ReadsBack) : (item x y).ReadsBack := by
  have hindex : Denotes .tuple _ y.text.toList (some y) := Denotes.loosen hy (Nat.zero_le _)
  exact of_denotes ((hx.atLeast .primary).item hindex) (by simp)

theorem field (hx : x.ReadsBack) (hi : x.isInteger = false) {n : String}
    (hn : Spells n.toList (.identifier n)) : (field x n).ReadsBack :=
  of_denotes ((hx.atLeast_primary hi).field hn) (by simp)

theorem binary (hx : x.ReadsBack) (hy : y.ReadsBack) (op : Operator) :
    (binary x op y).ReadsBack := by
  by_cases hop : op = .power
  · subst hop
    exact of_denotes ((hx.atLeast .primary).power (hy.atLeast .sign))
      (by simp [Operator.text])
  · have hlevel : (Precedence.ofOperator op).operand.rank = (Precedence.ofOperator op).rank + 1 := by
      cases op <;> first | rfl | exact absurd rfl hop
    refine of_denotes ((hx.atLeast _).binary hop (hy.above hlevel)) ?_
    rw [text]
    · simp
    · exact hop

theorem joined (hx : x.ReadsBack) (hy : y.ReadsBack) (connective : Connective) :
    (joined x connective y).ReadsBack := by
  have hlevel : (Precedence.ofConnective connective).operand.rank =
      (Precedence.ofConnective connective).rank + 1 := by
    cases connective <;> rfl
  exact of_denotes ((hx.atLeast _).joined connective (hy.above hlevel)) (by simp)

theorem unary (hx : x.ReadsBack) (hopens : Opens x.text.toList) (op : UnaryOperator) :
    (unary op x).ReadsBack := by
  cases op with
  | minus =>
    exact of_denotes ((hx.atLeast .sign).minus (opens_atLeast hopens _))
      (by simp [UnaryOperator.text, UnaryOperator.level])
  | plus =>
    exact of_denotes ((hx.atLeast .sign).plus (opens_atLeast hopens _))
      (by simp [UnaryOperator.text, UnaryOperator.level])
  | not =>
    refine of_denotes ((hx.atLeast .not).blank.not fun _ => .cons (by decide) _ _) ?_
    simp [UnaryOperator.text, UnaryOperator.level]

theorem items {xs : List Expression} (h : ∀ x ∈ xs, x.ReadsBack) (b : Bracket) :
    DenotesItems b ((", ".intercalate (itemTexts xs)).toList ++ [b.closing]) (some xs) := by
  induction xs with
  | nil => exact .nil b
  | cons x xs ih =>
    have hx := (h x (.head _)).atLeast .or
    cases xs with
    | nil => simpa using DenotesItems.one (b := b) hx
    | cons y ys =>
      have hxs := ih fun z hz => h z (.tail _ hz)
      simpa [String.intercalate_cons_cons] using DenotesItems.cons hx hxs.blank

theorem list {xs : List Expression} (h : ∀ x ∈ xs, x.ReadsBack) : (list xs).ReadsBack :=
  of_denotes (.list (items h .square)) (by simp [Bracket.closing])

theorem set {xs : List Expression} (hne : xs ≠ []) (h : ∀ x ∈ xs, x.ReadsBack) :
    (set xs).ReadsBack := by
  cases xs with
  | nil => exact absurd rfl hne
  | cons x xs =>
    have hx := (h x (.head _)).atLeast .or
    cases xs with
    | nil => exact of_denotes hx.singleton (by simp)
    | cons y ys =>
      have hxs := items (fun z hz => h z (.tail _ hz)) .curly
      refine of_denotes (hx.set hxs.blank) ?_
      simp [String.intercalate_cons_cons, Bracket.closing]

theorem call (hx : x.ReadsBack) {xs : List Expression} (h : ∀ x ∈ xs, x.ReadsBack) :
    (call x xs).ReadsBack :=
  of_denotes ((hx.atLeast .primary).call (items h .round)) (by simp [Bracket.closing])

theorem more {xs : List Expression} (h : ∀ x ∈ xs, x.ReadsBack) :
    DenotesMore ((itemTexts xs).flatMap fun t => ',' :: ' ' :: t.toList) xs := by
  induction xs with
  | nil => exact .nil
  | cons x xs ih =>
    have hx := (h x (.head _)).atLeast .or
    have hxs := ih fun z hz => h z (.tail _ hz)
    simpa using DenotesMore.cons hx hxs

/-- A tuple is always in parentheses. -/
theorem denotes_tuple {xs : List Expression} (h : ∀ x ∈ xs, x.ReadsBack) :
    Denotes .primary true (Expression.tuple xs).text.toList (some (.tuple xs)) := by
  cases xs with
  | nil =>
    rw [show (Expression.tuple []).text.toList = ['(', ')'] from rfl]
    exact .emptyTuple
  | cons x xs =>
    have hx := (h x (.head _)).atLeast .or
    cases xs with
    | nil => simpa using DenotesMore.tuple hx .comma
    | cons y ys =>
      have hmore := more fun z hz => h z (.tail _ hz)
      have htuple := DenotesMore.tuple hx hmore
      rw [text, String.toList_append, String.toList_append, String.toList_append, itemTexts,
        intercalate_toList]
      simpa [List.flatMap_def] using htuple

theorem tuple {xs : List Expression} (h : ∀ x ∈ xs, x.ReadsBack) : (tuple xs).ReadsBack :=
  (denotes_tuple h).withoutDot.loosen (Nat.zero_le _)

theorem entries {es : List (Expression × Expression)}
    (h : ∀ e ∈ es, e.1.ReadsBack ∧ e.2.ReadsBack) :
    DenotesEntries ((entryTexts es).flatMap (fun t => ',' :: ' ' :: t.toList) ++ ['\x7d']) es := by
  induction es with
  | nil => exact .nil
  | cons e es ih =>
    obtain ⟨hk, hv⟩ := h e (.head _)
    have hes := ih fun z hz => h z (.tail _ hz)
    simpa [entryTexts] using DenotesEntries.cons (hk.atLeast .or) (hv.atLeast .or) hes

theorem dict {es : List (Expression × Expression)}
    (h : ∀ e ∈ es, e.1.ReadsBack ∧ e.2.ReadsBack) : (dict es).ReadsBack := by
  cases es with
  | nil => exact of_denotes .emptyDict (by simp [entryTexts])
  | cons e es =>
    obtain ⟨hk, hv⟩ := h e (.head _)
    have hes := entries fun z hz => h z (.tail _ hz)
    refine of_denotes (DenotesEntries.dict (hk.atLeast .or) (hv.atLeast .or) hes) ?_
    rw [text, String.toList_append, String.toList_append, entryTexts, intercalate_toList]
    simp

theorem compared {others : List (Comparison × Expression)} (h : ∀ e ∈ others, e.2.ReadsBack) :
    DenotesCompared (comparedText others).toList (some others) := by
  induction others with
  | nil => exact .nil
  | cons e others ih =>
    have hx : Denotes .sum false (e.2.above .comparison e.2.text).toList (some e.2) :=
      (h e (.head _)).above rfl
    have hothers := ih fun z hz => h z (.tail _ hz)
    simpa [comparedText] using DenotesCompared.cons e.1 hx hothers

theorem compare (hx : x.ReadsBack) {others : List (Comparison × Expression)} (hne : others ≠ [])
    (h : ∀ e ∈ others, e.2.ReadsBack) : (compare x others).ReadsBack := by
  have hfirst : Denotes .sum false (x.above .comparison x.text).toList (some x) := hx.above rfl
  refine of_denotes (DenotesCompared.comparison hfirst (compared h) ?_) (by simp)
  rintro xs ⟨⟩
  exact hne

end ReadsBack

mutual

/-- The text of a printable expression is read as that expression. -/
theorem readsBack : (x : Expression) → x.Printable → x.ReadsBack
  | integer _, h => .integer h
  | float _, h => .float h
  | string _, h => .string h
  | boolean b, _ => .boolean b
  | none, _ => .noneLiteral
  | name _, h => .name h
  | list xs, h => .list (allReadBack xs h)
  | tuple xs, h => .tuple (allReadBack xs h)
  | set xs, h => .set h.1 (allReadBack xs h.2)
  | dict es, h => .dict (entriesReadBack es h)
  | item x y, h => .item (readsBack x h.1) (readsBack y h.2)
  | field x _, h => .field (readsBack x h.1) h.2.1 h.2.2
  | binary x op y, h => .binary (readsBack x h.1) (readsBack y h.2) op
  | unary op x, h => .unary (readsBack x h) (opens x h) op
  | joined x connective y, h => .joined (readsBack x h.1) (readsBack y h.2) connective
  | compare x others, h => .compare (readsBack x h.1) h.2.1 (comparedReadBack others h.2.2)
  | call x xs, h => .call (readsBack x h.1) (allReadBack xs h.2)

theorem allReadBack : (xs : List Expression) → AllPrintable xs → ∀ x ∈ xs, x.ReadsBack
  | [], _ => nofun
  | x :: xs, h => List.forall_mem_cons.mpr ⟨readsBack x h.1, allReadBack xs h.2⟩

theorem entriesReadBack : (es : List (Expression × Expression)) → EntriesPrintable es →
    ∀ e ∈ es, e.1.ReadsBack ∧ e.2.ReadsBack
  | [], _ => nofun
  | (x, y) :: es, h =>
    List.forall_mem_cons.mpr ⟨⟨readsBack x h.1, readsBack y h.2.1⟩, entriesReadBack es h.2.2⟩

theorem comparedReadBack : (others : List (Comparison × Expression)) → ComparedPrintable others →
    ∀ e ∈ others, e.2.ReadsBack
  | [], _ => nofun
  | (_, x) :: others, h =>
    List.forall_mem_cons.mpr ⟨readsBack x h.1, comparedReadBack others h.2⟩

end

/-- Only tuples are at the loosest level. -/
theorem or_le_precedence {x : Expression} (h : ∀ xs, x ≠ tuple xs) :
    Precedence.or.rank ≤ x.precedence.rank := by
  cases x with
  | tuple xs => exact absurd rfl (h xs)
  | unary op _ => cases op <;> exact Nat.le_of_ble_eq_true rfl
  | binary _ op _ => cases op <;> exact Nat.le_of_ble_eq_true rfl
  | joined _ connective _ => cases connective <;> exact Nat.le_of_ble_eq_true rfl
  | _ => exact Nat.le_of_ble_eq_true rfl

/-- Where no tuple can stand without parentheses, the text of every expression can. -/
theorem denotes_or (x : Expression) (h : x.Printable) :
    Denotes .or false x.text.toList (some x) := by
  by_cases htuple : ∃ xs, x = tuple xs
  · obtain ⟨xs, rfl⟩ := htuple
    exact (ReadsBack.denotes_tuple (allReadBack xs h)).withoutDot.loosen (by decide)
  · have hrank := or_le_precedence fun xs hx => htuple ⟨xs, hx⟩
    exact (Denotes.loosen (readsBack x h) hrank).withoutDot

end Expression

end Growth.Code
