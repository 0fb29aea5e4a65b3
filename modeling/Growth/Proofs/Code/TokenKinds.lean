import Growth.Code.Tokens
import Growth.Proofs.Code.PrintedExpression

/-! What the tokens of a text can be. Words and whole numbers are spelled as what they are, other
numbers have no sign, and the content of a string ends on its line and not with a backslash. -/

namespace Growth.Code

/-- What can be the kind of a token of a text. The content of a string could stand between line ends,
so there is a quote between which it can stand if it does not have that quote in it. -/
def Kind.Occurs : Kind → Prop
  | identifier n => Spells n.toList (.identifier n)
  | integer l => Spells l.toList (.integer l)
  | float v => ∃ m, v = .number false m
  | string s => Quotable '\n' s.toList
  | _ => True

/-! ### Strings -/

/-- What is found before a closing quote can stand between such quotes. -/
theorem Quotable.of_quotation {quote : Char} : (cs : List Char) → {content : List Char} →
    Code.quotation quote false cs = (content, true) → Quotable quote content
  | [], _, h => by cases h
  | c :: cs, content, h => by
    rw [Code.quotation] at h
    split at h
    · cases h
    rename_i hn
    split at h
    · cases h
      exact .nil
    rename_i hq
    simp only [beq_iff_eq, Bool.not_false, Bool.and_true] at hn hq h
    obtain ⟨rfl, hclosed⟩ := Prod.ext_iff.mp h
    by_cases hb : c = '\\'
    · subst hb
      cases cs with
      | nil => cases hclosed
      | cons d cs =>
        rw [beq_self_eq_true, Code.quotation] at hclosed ⊢
        by_cases hd : d = '\n'
        · simp [hd] at hclosed
        · simp only [beq_iff_eq, hd, Bool.not_true, Bool.and_false, if_false] at hclosed ⊢
          exact .escaped hd (of_quotation cs (Prod.ext rfl hclosed))
    · rw [beq_eq_false_iff_ne.mpr hb] at hclosed ⊢
      exact .plain hn hq hb (of_quotation cs (Prod.ext rfl hclosed))

theorem Quotable.onLine {quote : Char} {cs : List Char} (h : Quotable quote cs) :
    Quotable '\n' cs := by
  induction h with
  | nil => exact .nil
  | plain hn _ hb _ ih => exact .plain hn hn hb ih
  | escaped hn _ ih => exact .escaped hn ih

theorem Quotable.append {quote : Char} {cs cs' : List Char} (h : Quotable quote cs)
    (h' : Quotable quote cs') : Quotable quote (cs ++ cs') := by
  induction h with
  | nil => exact h'
  | plain hn hq hb _ ih => exact .plain hn hq hb ih
  | escaped hn _ ih => exact .escaped hn ih

/-! ### Numbers -/

theorem numeral_fractional (letter : Bool) (cs : List Char) :
    (numeral true letter cs).2 = true := by
  induction cs generalizing letter with
  | nil => rfl
  | cons c cs ih =>
    rw [numeral]
    split
    · exact ih false
    split
    · exact ih false
    split
    · exact ih true
    · rfl

/-- A whole number that is found in a text is found in its own. -/
theorem numeral_whole {cs chars : List Char} (h : numeral false false cs = (chars, false)) :
    numeral false false chars = (chars, false) := by
  induction cs generalizing chars with
  | nil =>
    cases h
    rfl
  | cons c cs ih =>
    rw [numeral] at h
    split at h
    · rename_i hc
      obtain ⟨rfl, hf⟩ := Prod.ext_iff.mp h
      rw [numeral, if_pos hc, ih (Prod.ext rfl hf)]
    split at h
    · exact absurd (Prod.ext_iff.mp h).2 (by simp [numeral_fractional])
    split at h
    · exact absurd (Prod.ext_iff.mp h).2 (by simp [numeral_fractional])
    · cases h
      rfl

theorem numeral_cons {c : Char} (hc : (c.isDigit || c == '.') = true) (cs : List Char) :
    ∃ more, (numeral false false (c :: cs)).1 = c :: more := by
  rw [numeral]
  split
  · exact ⟨_, rfl⟩
  split
  · exact ⟨_, rfl⟩
  · simp_all

/-- A number that begins with a digit or a point has no sign. -/
theorem occurs_of_fractional {c : Char} (hc : (c.isDigit || c == '.') = true) {more : List Char}
    {k : Kind} (h : numberKind? (c :: more) true = some k) : k.Occurs := by
  rw [numberKind?, if_pos rfl] at h
  obtain ⟨d, hd, rfl⟩ := Option.map_eq_some_iff.mp h
  refine ⟨Binary64.ofScaled d.digits d.exponent, ?_⟩
  have hsign : c ≠ '_' ∧ c ≠ '-' ∧ c ≠ '+' := by
    refine ⟨?_, ?_, ?_⟩ <;> rintro rfl <;> exact absurd hc (by decide)
  have hnegative := Decimal.negative_of_read? hd
  rw [List.filter_cons_of_pos (by simpa using hsign.1), Decimal.sign] at hnegative
  · rw [Binary64.ofDecimal, hnegative]
  · rintro _ ⟨⟩
    exact hsign.2.1 rfl
  · rintro _ ⟨⟩
    exact hsign.2.2 rfl

theorem occurs_of_whole {c : Char} {cs more : List Char} (hs : startsName c = false)
    (hfirst : (c.isDigit || c == '.') = true)
    (hn : numeral false false (c :: cs) = (c :: more, false)) {k : Kind}
    (h : numberKind? (c :: more) false = some k) : k.Occurs := by
  -- A point would make the number fractional.
  have hd : c.isDigit = true := by
    by_contra hd
    obtain rfl : c = '.' := by simpa [hd] using hfirst
    rw [numeral, if_neg (by decide), if_pos (by decide)] at hn
    exact absurd (Prod.ext_iff.mp hn).2 (by simp [numeral_fractional])
  obtain ⟨v, -, hf⟩ | ⟨l, rfl, -⟩ := numberKind?_cases h
  · cases hf
  have hl : l.toList = c :: more := by
    unfold numberKind? at h
    dsimp only at h
    split at h
    · contradiction
    split at h
    · cases h
    · cases h
      exact String.toList_ofList
  refine ⟨c, more, hl, ?_⟩
  rw [hl]
  exact lexeme_of_number hs (by simp [hd]) (numeral_whole hn) h

/-- What is found at the beginning of a text can be a token. -/
theorem occurs_of_lexeme {c : Char} {cs chars : List Char} {k : Kind}
    (h : lexeme c cs = .token k chars) : k.Occurs := by
  rcases lexeme_cases h with ⟨content, -, hq, rfl, -⟩ | ⟨hs, rfl, rfl⟩ | ⟨hs, hd, f, hn, hk⟩
  · rw [Kind.Occurs, String.toList_ofList]
    exact (Quotable.of_quotation cs hq).onLine
  · have hspells := Spells.name hs fun d (hd : d ∈ cs.takeWhile continuesName) =>
      List.mem_takeWhile_imp hd
    unfold nameKind at hspells ⊢
    split
    · trivial
    · rename_i hnone
      rw [hnone] at hspells
      rwa [Kind.Occurs, String.toList_ofList]
  · have hfirst : (c.isDigit || c == '.') = true := by
      simp only [Bool.or_eq_true, Bool.and_eq_true] at hd ⊢
      exact hd.imp_right And.left
    obtain ⟨more, hmore⟩ := numeral_cons hfirst cs
    rw [hn] at hmore
    obtain rfl : chars = c :: more := hmore
    cases f with
    | true => exact occurs_of_fractional hfirst hk
    | false => exact occurs_of_whole hs hfirst hn hk

/-! ### From one token to the next -/

namespace Scanner

/-- Only ends of blocks are pending. -/
def OnlyEnds (s : Scanner) : Prop :=
  ∀ t ∈ s.pending, t.kind = .dedent

/-- A step of a scanner gives a token that can occur, if it gives one, and leaves only ends of blocks
pending. -/
structure Delivers (step : Except ScanError Token × Scanner) : Prop where
  kind : ∀ t, step.1 = .ok t → t.kind.Occurs
  pending : step.2.OnlyEnds

variable {s : Scanner}

theorem Delivers.of_kind {t : Token} (ht : t.kind.Occurs) (hs : s.OnlyEnds) :
    Delivers (.ok t, s) :=
  ⟨by rintro _ ⟨⟩; exact ht, hs⟩

theorem Delivers.of_error (e : ScanError) (hs : s.OnlyEnds) :
    Delivers (.error e, s) :=
  ⟨by rintro _ ⟨⟩, hs⟩

theorem onlyEnds_close (s : Scanner) (blocks : List Nat) : (s.close blocks).OnlyEnds := by
  intro t ht
  obtain ⟨_, -, rfl⟩ := List.mem_map.mp ht
  rfl

theorem delivers_deliver (hs : s.OnlyEnds)
    {otherwise : Scanner → Except ScanError Token × Scanner} (h : Delivers (otherwise s)) :
    Delivers (s.deliver otherwise) := by
  unfold deliver
  split
  · rename_i t pending hpending
    rw [OnlyEnds, hpending, List.forall_mem_cons] at hs
    exact .of_kind (by rw [hs.1]; trivial) hs.2
  · exact h

theorem delivers_take (hs : s.OnlyEnds) {kind : Kind} (hk : kind.Occurs)
    (chars : List Char) : Delivers (s.take kind chars) :=
  .of_kind hk hs

theorem delivers_takeSign (hs : s.OnlyEnds) (m : Mark) (chars : List Char) :
    Delivers (s.takeSign m chars) := by
  have htake : ∀ brackets, Delivers ({ s with brackets := brackets }.take (.mark m) chars) :=
    fun _ => delivers_take (by exact hs) (by trivial) chars
  unfold takeSign
  split
  · exact htake _
  · dsimp only
    split
    · exact htake _
    · exact .of_error _ hs
  · exact htake s.brackets

theorem delivers_finish (s : Scanner) : Delivers s.finish := by
  have hclose := s.onlyEnds_close s.widths
  unfold finish
  dsimp only
  split
  · exact .of_kind (by trivial) hclose
  · refine delivers_deliver ?_ (.of_kind ?_ ?_)
    · exact hclose
    · trivial
    · exact hclose

theorem delivers_inLine (hs : s.OnlyEnds) : Delivers s.inLine := by
  have hskip : (s.skip (gap (!s.brackets.isEmpty) .blanks s.rest)).OnlyEnds := hs
  unfold inLine
  dsimp only
  split
  · exact delivers_finish _
  split
  · exact .of_kind (by trivial) hs
  split
  · rename_i hlexeme
    exact delivers_take hskip (occurs_of_lexeme hlexeme) _
  · exact delivers_takeSign hskip _ _
  · exact .of_error _ hs
  · exact .of_error _ hs
  · exact .of_error _ hs

theorem delivers_indented (hs : s.OnlyEnds) (width : Nat) :
    Delivers (s.indented width) := by
  unfold indented
  split
  · exact .of_kind (by trivial) hs
  dsimp only
  have hclose := s.onlyEnds_close (s.widths.span (width < ·)).1
  split
  · refine delivers_deliver ?_ (delivers_inLine ?_) <;> exact hclose
  · exact .of_error _ hclose

theorem delivers_next (hs : s.OnlyEnds) : Delivers s.next := by
  unfold next
  refine delivers_deliver hs ?_
  split
  · exact .of_kind (by trivial) hs
  split
  · dsimp only
    split
    · refine delivers_inLine ?_
      exact hs
    · refine delivers_indented ?_ _
      exact hs
  · exact delivers_inLine hs

theorem occurs_of_mem_tokens (hs : s.OnlyEnds) {ts : List Token}
    (h : s.tokens = .ok ts) : ∀ t ∈ ts, t.kind.Occurs := by
  fun_induction tokens s generalizing ts with
  | case1 => exact nomatch h
  | case2 s t s' hnext =>
    cases h
    have hstep := delivers_next hs
    rw [hnext] at hstep
    exact List.forall_mem_singleton.mpr (hstep.kind t rfl)
  | case3 s t s' hnext _ ih =>
    have hstep := delivers_next hs
    rw [hnext] at hstep
    cases htokens : s'.tokens with
    | error => rw [htokens] at h; exact nomatch h
    | ok ts' =>
      rw [htokens] at h
      cases h
      exact List.forall_mem_cons.mpr ⟨hstep.kind t rfl, ih hstep.pending htokens⟩

end Scanner

/-- The tokens of a text are such as can occur. -/
theorem occurs_of_tokens {source : String} {ts : List Token} (h : tokens source = .ok ts) :
    ∀ t ∈ ts, t.kind.Occurs := by
  refine Scanner.occurs_of_mem_tokens ?_ h
  exact List.forall_mem_nil _

end Growth.Code
