import Growth.Proofs.Code.Spans

/-! Underscores in numbers. In a whole number each stands between two digits. A number with a point
or an exponent may have others: one at its end, and one beside another, the point or the letter of
the exponent. -/

namespace Growth.Code

/-- The token takes up the characters `text` of `source`. -/
def Token.TakesUp (t : Token) (source : String) (text : List Char) : Prop :=
  ∃ before after, source.toList = before ++ text ++ after ∧
    (String.ofList before).utf8ByteSize = t.place.offset ∧
    (String.ofList (before ++ text)).utf8ByteSize = t.stop

/-- Each underscore stands directly between two digits. -/
def Grouped (cs : List Char) : Prop :=
  ∀ front back, cs = front ++ '_' :: back →
    front.getLast?.any Char.isDigit = true ∧ back.head?.any Char.isDigit = true

/-- An underscore and a character that can stand beside it in a number, though it is no digit. -/
def loosePairs : List (List Char) :=
  [['_', '_'], ['.', '_'], ['_', '.'], ['_', 'e'], ['_', 'E']]

/-- An underscore stands at the end, beside another or the point, or before the letter of an
exponent. -/
def Loose (cs : List Char) : Prop :=
  cs.getLast? = some '_' ∨ ∃ pair ∈ loosePairs, pair <:+: cs

instance : DecidablePred Loose :=
  fun cs => inferInstanceAs (Decidable (cs.getLast? = some '_' ∨ ∃ pair ∈ loosePairs, pair <:+: cs))

/-- The first of the digits is no zero, or all are zeros. -/
def NoLeadingZero (digits : List Char) : Prop :=
  digits.head? = some '0' → ∀ c ∈ digits, c = '0'

/-! ### The characters of a token -/

theorem eq_of_utf8ByteSize {cs front front' : List Char} (h : front <+: cs) (h' : front' <+: cs)
    (hsize : (String.ofList front).utf8ByteSize = (String.ofList front').utf8ByteSize) :
    front = front' := by
  wlog hle : front.length ≤ front'.length
  · exact (this h' h hsize.symm (Nat.le_of_not_le hle)).symm
  obtain ⟨more, rfl⟩ := List.prefix_of_prefix_length_le h h' hle
  rw [String.ofList_append, String.utf8ByteSize_append, Nat.left_eq_add,
    String.utf8ByteSize_eq_zero_iff, ← String.ofList_nil, String.ofList_inj] at hsize
  rw [hsize, List.append_nil]

/-- A token takes up no other characters. -/
theorem Token.TakesUp.unique {t : Token} {source : String} {text text' : List Char}
    (h : t.TakesUp source text) (h' : t.TakesUp source text') : text = text' := by
  obtain ⟨before, after, hsplit, hbefore, hstop⟩ := h
  obtain ⟨before', after', hsplit', hbefore', hstop'⟩ := h'
  have hfront : before ++ text = before' ++ text' :=
    eq_of_utf8ByteSize ⟨after, hsplit.symm⟩ ⟨after', hsplit'.symm⟩ (hstop.trans hstop'.symm)
  have hprefix : before <+: source.toList := ⟨text ++ after, by rw [hsplit, List.append_assoc]⟩
  have hprefix' : before' <+: source.toList :=
    ⟨text' ++ after', by rw [hsplit', List.append_assoc]⟩
  obtain rfl := eq_of_utf8ByteSize hprefix hprefix' (hbefore.trans hbefore'.symm)
  exact List.append_cancel_left hfront

theorem Located.takesUp {source : String} {front : List Token} {t : Token}
    {before gap text after : List Char} (h : Located source front t before gap text after) :
    t.TakesUp source text :=
  ⟨before ++ gap, after, h.split, by rw [h.place], h.stop.symm⟩

/-! ### Neighbours in a number -/

/-- What can stand side by side in a number, as far as underscores go. -/
def Beside (a b : Char) : Prop :=
  (a = '_' → b.isDigit = true ∨ b = '_' ∨ b = '.' ∨ b = 'e' ∨ b = 'E') ∧
    (b = '_' → a.isDigit = true ∨ a = '_' ∨ a = '.')

/-- Where a number goes on, `a` came before and `cs` follows. `letter` tells whether `a` is the
letter of an exponent. -/
inductive Behind (cs : List Char) : Bool → Char → Prop
  | body {a : Char} (ha : a.isDigit = true ∨ a = '_' ∨ a = '.') : Behind cs false a
  | letter {a : Char} (ha : a = 'e' ∨ a = 'E') (hcs : startsExponent cs = true) : Behind cs true a
  | sign {a : Char} (ha : a = '+' ∨ a = '-') (hcs : cs.head?.any Char.isDigit = true) :
    Behind cs false a

theorem isDigit_of_startsExponent {c : Char} {cs : List Char}
    (h : startsExponent (c :: cs) = true) :
    c.isDigit = true ∨ (c = '+' ∨ c = '-') ∧ cs.head?.any Char.isDigit = true := by
  unfold startsExponent at h
  split at h
  · rename_i heq
    cases heq
    exact .inr ⟨.inl rfl, h⟩
  · rename_i heq
    cases heq
    exact .inr ⟨.inr rfl, h⟩
  · exact .inl h

/-- Neither the letter nor the sign of an exponent stands before an underscore. -/
theorem Behind.beside {a c : Char} {cs : List Char} {letter : Bool}
    (h : Behind (c :: cs) letter a)
    (hc : c.isDigit = true ∨ c = '_' ∨ c = '.' ∨ c = 'e' ∨ c = 'E') : Beside a c := by
  refine ⟨fun _ => hc, ?_⟩
  rintro rfl
  cases h with
  | body ha => exact ha
  | letter _ hcs =>
    obtain hdigit | ⟨hsign | hsign, -⟩ := isDigit_of_startsExponent hcs
    · exact absurd hdigit (by decide)
    · exact absurd hsign (by decide)
    · exact absurd hsign (by decide)
  | sign _ hcs => exact absurd hcs (by simp [Char.isDigit])

theorem isChain_numeral {a : Char} {cs : List Char} {letter : Bool} (h : Behind cs letter a)
    (fractional : Bool) : (a :: (numeral fractional letter cs).1).IsChain Beside := by
  -- What follows depends on the character before it, so that one goes along with the induction.
  induction cs generalizing a fractional letter with
  | nil => exact List.isChain_singleton a
  | cons c cs ih =>
    rw [numeral]
    split
    · rename_i hc
      simp only [Bool.or_eq_true, Bool.and_eq_true, beq_iff_eq] at hc
      refine List.isChain_cons_cons.mpr ?_
      obtain (hdigit | rfl) | ⟨rfl, hsign⟩ := hc
      · exact ⟨h.beside (.inl hdigit), ih (.body (.inl hdigit)) _⟩
      · exact ⟨h.beside (.inr (.inl rfl)), ih (.body (.inr (.inl rfl))) _⟩
      · cases h with
        | letter ha hcs =>
          have hne : a ≠ '_' ∧ c ≠ '_' := by
            constructor
            · rintro rfl
              exact absurd ha (by decide)
            · rintro rfl
              exact absurd hsign (by decide)
          have hnext : cs.head?.any Char.isDigit = true := by
            obtain hdigit | ⟨-, hnext⟩ := isDigit_of_startsExponent hcs
            · obtain rfl | rfl := hsign <;> exact absurd hdigit (by decide)
            · exact hnext
          exact ⟨⟨fun h => absurd h hne.1, fun h => absurd h hne.2⟩, ih (.sign hsign hnext) _⟩
    split
    · rename_i hc
      simp only [Bool.and_eq_true, beq_iff_eq] at hc
      obtain ⟨rfl, -⟩ := hc
      exact List.isChain_cons_cons.mpr
        ⟨h.beside (.inr (.inr (.inl rfl))), ih (.body (.inr (.inr rfl))) _⟩
    split
    · rename_i hc
      simp only [Bool.and_eq_true, Bool.or_eq_true, beq_iff_eq] at hc
      obtain ⟨hletter, hcs⟩ := hc
      exact List.isChain_cons_cons.mpr
        ⟨h.beside (.inr (.inr (.inr hletter))), ih (.letter hletter hcs) _⟩
    · exact List.isChain_singleton a

theorem isChain_of_numeral {cs chars : List Char} {f : Bool}
    (h : numeral false false cs = (chars, f)) : chars.IsChain Beside := by
  have hchain : ('.' :: (numeral false false cs).1).IsChain Beside :=
    isChain_numeral (.body (.inr (.inr rfl))) false
  rw [h] at hchain
  exact hchain.tail

theorem head?_numeral {c : Char} {cs chars : List Char} {f : Bool}
    (hc : (c.isDigit || c == '.') = true) (h : numeral false false (c :: cs) = (chars, f)) :
    chars.head? ≠ some '_' := by
  obtain ⟨more, hmore⟩ := numeral_cons hc cs
  rw [h] at hmore
  obtain rfl : chars = c :: more := hmore
  rintro ⟨⟩
  exact absurd hc (by decide)

/-! ### Between digits -/

theorem Grouped.not_loose {cs : List Char} (h : Grouped cs) : ¬Loose cs := by
  rintro (hlast | ⟨pair, hpair, before, after, rfl⟩)
  · obtain ⟨front, rfl⟩ := List.getLast?_eq_some_iff.mp hlast
    exact absurd (h front [] rfl).2 nofun
  -- In each pair one of the two is an underscore and the other no digit.
  · simp only [loosePairs, List.mem_cons, List.not_mem_nil, or_false] at hpair
    obtain rfl | rfl | rfl | rfl | rfl := hpair
    · exact absurd (h before ('_' :: after) (by simp)).2 (by simp)
    · exact absurd (h (before ++ ['.']) after (by simp)).1 (by simp)
    · exact absurd (h before ('.' :: after) (by simp)).2 (by simp)
    · exact absurd (h before ('e' :: after) (by simp)).2 (by simp)
    · exact absurd (h before ('E' :: after) (by simp)).2 (by simp)

theorem grouped_of_not_loose {cs : List Char} (hchain : cs.IsChain Beside)
    (hfirst : cs.head? ≠ some '_') (h : ¬Loose cs) : Grouped cs := by
  rw [Loose, not_or] at h
  obtain ⟨hlast, hpairs⟩ := h
  have hpair : ∀ a b, [a, b] ∈ loosePairs → ∀ front back, cs ≠ front ++ a :: b :: back :=
    fun a b hab front back hcs => hpairs ⟨[a, b], hab, front, back, by rw [hcs]; simp⟩
  rintro front back rfl
  constructor
  · obtain rfl | ⟨front, a, rfl⟩ := List.eq_nil_or_concat front
    · exact absurd rfl hfirst
    rw [List.concat_eq_append, List.append_assoc] at hchain hpair
    have hbeside : Beside a '_' := (List.isChain_cons_cons.mp hchain.right_of_append).1
    rw [List.concat_eq_append, List.getLast?_concat]
    obtain ha | rfl | rfl := hbeside.2 rfl
    · exact ha
    · exact absurd rfl (hpair '_' '_' (by decide) front back)
    · exact absurd rfl (hpair '.' '_' (by decide) front back)
  · cases back with
    | nil => exact absurd (by simp) hlast
    | cons b back =>
      have hbeside : Beside '_' b := (List.isChain_cons_cons.mp hchain.right_of_append).1
      obtain hb | rfl | rfl | rfl | rfl := hbeside.1 rfl
      · exact hb
      · exact absurd rfl (hpair '_' '_' (by decide) front back)
      · exact absurd rfl (hpair '_' '.' (by decide) front back)
      · exact absurd rfl (hpair '_' 'e' (by decide) front back)
      · exact absurd rfl (hpair '_' 'E' (by decide) front back)

/-! ### Whole numbers -/

theorem chars_of_whole {cs chars : List Char} (h : numeral false false cs = (chars, false)) :
    ∀ c ∈ chars, c.isDigit = true ∨ c = '_' := by
  induction cs generalizing chars with
  | nil =>
    cases h
    exact List.forall_mem_nil _
  | cons c cs ih =>
    rw [numeral] at h
    split at h
    · rename_i hc
      obtain ⟨rfl, hf⟩ := Prod.ext_iff.mp h
      have hc : c.isDigit = true ∨ c = '_' := by simpa using hc
      exact List.forall_mem_cons.mpr ⟨hc, ih (Prod.ext rfl hf)⟩
    split at h
    · exact absurd (Prod.ext_iff.mp h).2 (by simp [numeral_fractional])
    split at h
    · exact absurd (Prod.ext_iff.mp h).2 (by simp [numeral_fractional])
    · cases h
      exact List.forall_mem_nil _

theorem hasDoubleUnderscore_eq_true {cs : List Char} (h : ['_', '_'] <:+: cs) :
    hasDoubleUnderscore cs = true := by
  obtain ⟨before, after, rfl⟩ := h
  induction before with
  | nil => rfl
  | cons c before ih =>
    simp only [List.cons_append] at ih ⊢
    unfold hasDoubleUnderscore
    split
    · rfl
    · rename_i heq
      cases heq
      exact ih
    · rename_i heq
      cases heq

theorem noLeadingZero_of_hasLeadingZero {digits : List Char} (h : hasLeadingZero digits = false) :
    NoLeadingZero digits := by
  intro hhead
  obtain ⟨more, rfl⟩ := List.head?_eq_some_iff.mp hhead
  cases more with
  | nil => simp
  | cons d more => simpa [hasLeadingZero] using h

/-- What the checks of a whole number leave. -/
theorem whole_of_numberKind? {c : Char} {cs chars : List Char} {k : Kind}
    (hc : (c.isDigit || c == '.') = true) (hn : numeral false false (c :: cs) = (chars, false))
    (hk : numberKind? chars false = some k) :
    k = .integer (String.ofList chars) ∧ Grouped chars ∧ NoLeadingZero (chars.filter (· != '_')) := by
  have hchars := chars_of_whole hn
  unfold numberKind? at hk
  dsimp only at hk
  split at hk
  · contradiction
  split at hk
  · cases hk
  rename_i hcheck
  simp only [Bool.not_eq_true, Bool.or_eq_false_iff, beq_eq_false_iff_ne] at hcheck
  obtain ⟨⟨hlast, hdouble⟩, hzero⟩ := hcheck
  cases hk
  refine ⟨rfl, grouped_of_not_loose (isChain_of_numeral hn) (head?_numeral hc hn) ?_,
    noLeadingZero_of_hasLeadingZero hzero⟩
  rintro (hend | ⟨pair, hpair, hin⟩)
  · exact hlast hend
  -- The other pairs have a character that is in no whole number.
  have hforeign (d : Char) (hd : d ∈ pair) : d.isDigit = true ∨ d = '_' :=
    hchars d (hin.subset hd)
  simp only [loosePairs, List.mem_cons, List.not_mem_nil, or_false] at hpair
  obtain rfl | rfl | rfl | rfl | rfl := hpair
  · rw [hasDoubleUnderscore_eq_true hin] at hdouble
    cases hdouble
  · exact absurd (hforeign '.' (by decide)) (by decide)
  · exact absurd (hforeign '.' (by decide)) (by decide)
  · exact absurd (hforeign 'e' (by decide)) (by decide)
  · exact absurd (hforeign 'E' (by decide)) (by decide)

/-! ### The numbers of a text -/

/-- A number at the beginning of a text. -/
theorem numeral_of_number {c : Char} {cs text : List Char} {k : Kind}
    (h : lexeme c cs = .token k text) (hk : k.isNumber = true) :
    (c.isDigit || c == '.') = true ∧
      ∃ f, numeral false false (c :: cs) = (text, f) ∧ numberKind? text f = some k := by
  obtain ⟨content, -, -, rfl, -⟩ | ⟨-, -, rfl⟩ | ⟨-, hd, hn⟩ := lexeme_cases h
  · cases hk
  · unfold nameKind at hk
    split at hk <;> cases hk
  · refine ⟨?_, hn⟩
    simp only [Bool.or_eq_true, Bool.and_eq_true] at hd ⊢
    exact hd.imp_right And.left

variable {source : String} {ts : List Token}

/-- In the whole numbers of a text each underscore stands between two digits, and no digits begin
with a zero that they do not need. In its other numbers each underscore stands between two digits
unless one of them is loose. -/
theorem underscores_of_tokens (h : tokens source = .ok ts) :
    ∀ t ∈ ts, (∃ text, t.TakesUp source text) ∧ ∀ text, t.TakesUp source text →
      (∀ l, t.kind = .integer l →
        l.toList = text ∧ Grouped text ∧ NoLeadingZero (text.filter (· != '_'))) ∧
      ∀ v, t.kind = .float v → (Grouped text ↔ ¬Loose text) := by
  intro t ht
  obtain ⟨front, back, hts⟩ := List.append_of_mem ht
  obtain ⟨before, gap, text, after, hlocated, hfound⟩ := (Scanner.stood_ofText source).found h hts
  refine ⟨⟨text, hlocated.takesUp⟩, fun text' htext' => ?_⟩
  obtain rfl := hlocated.takesUp.unique htext'
  constructor
  · intro l hl
    rw [hl] at hfound
    obtain ⟨c, cs, -, hlexeme⟩ := hfound rfl
    obtain ⟨hc, f, hn, hk⟩ := numeral_of_number hlexeme rfl
    obtain ⟨v, hfloat, -⟩ | ⟨_, -, rfl⟩ := numberKind?_cases hk
    · cases hfloat
    obtain ⟨hinteger, hgrouped, hzero⟩ := whole_of_numberKind? hc hn hk
    cases hinteger
    exact ⟨String.toList_ofList, hgrouped, hzero⟩
  · intro v hv
    rw [hv] at hfound
    obtain ⟨c, cs, -, hlexeme⟩ := hfound rfl
    obtain ⟨hc, f, hn, -⟩ := numeral_of_number hlexeme rfl
    exact ⟨Grouped.not_loose, grouped_of_not_loose (isChain_of_numeral hn) (head?_numeral hc hn)⟩

/-- A sum of a whole number and a number past the last finite one. -/
def groupedTokens : List Token :=
  [⟨.integer "1_000", .start, 5⟩, ⟨.mark (.operator .plus), ⟨5, ⟨1, 5⟩⟩, 6⟩,
    ⟨.float (.number false (Binary64.magnitude Binary64.infinite)), ⟨6, ⟨1, 6⟩⟩, 18⟩,
    ⟨.newline, ⟨18, ⟨1, 18⟩⟩, 18⟩, ⟨.endOfFile, ⟨18, ⟨1, 18⟩⟩, 18⟩]

set_option maxRecDepth 4000 in
theorem underscores_of_tokens_sum :
    tokens "1_000+1_0.2_5e9_99" = .ok groupedTokens ∧
      Grouped "1_000".toList ∧ Grouped "1_0.2_5e9_99".toList := by
  have htokens : tokens "1_000+1_0.2_5e9_99" = .ok groupedTokens := by cbv
  have hwhole := underscores_of_tokens htokens ⟨.integer "1_000", .start, 5⟩ (.head _)
  have hfloat := underscores_of_tokens htokens
    ⟨.float (.number false (Binary64.magnitude Binary64.infinite)), ⟨6, ⟨1, 6⟩⟩, 18⟩
    (.tail _ (.tail _ (.head _)))
  have hfirst := (hwhole.2 "1_000".toList ⟨[], "+1_0.2_5e9_99".toList, by decide, rfl, rfl⟩).1
  have hsecond := (hfloat.2 "1_0.2_5e9_99".toList ⟨"1_000+".toList, [], by decide, rfl, rfl⟩).2
  exact ⟨htokens, (hfirst _ rfl).2.1, (hsecond _ rfl).mpr (by decide)⟩

/-- The tokens of a line with a number alone, whose underscore stands before the point. -/
def looseTokens : List Token :=
  [⟨.float (.number false (Binary64.magnitude 0)), .start, 4⟩, ⟨.newline, ⟨4, ⟨1, 4⟩⟩, 5⟩,
    ⟨.endOfFile, ⟨5, ⟨2, 0⟩⟩, 5⟩]

set_option maxRecDepth 4000 in
/-- A loose underscore in a number with a point is accepted. -/
theorem tokens_loose :
    tokens "0_.0\n" = .ok looseTokens ∧
      (∃ t ∈ looseTokens, t.kind.isNumber = true ∧ t.TakesUp "0_.0\n" "0_.0".toList) ∧
      ¬Grouped "0_.0".toList := by
  have htokens : tokens "0_.0\n" = .ok looseTokens := by cbv
  have hloose : Loose "0_.0".toList := by decide
  exact ⟨htokens, ⟨_, .head _, rfl, [], ['\n'], by decide, rfl, rfl⟩, fun h => h.not_loose hloose⟩

end Growth.Code
